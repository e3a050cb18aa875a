import BucketLSM.Schedule.Queues

/-!
# The invariant of `compaction_queue_`

`db_impl.h` documents that a column family is in `compaction_queue_` exactly when its
`queued_for_compaction` flag is set. A call of `EnqueuePendingCompaction` that finds several
level-0 groups adds an entry for each of them, while the flag is cleared with the first entry
that leaves the queue. The invariant is kept by the calls that find at most one group.
-/

namespace BucketLSM

open Option List

namespace Scheduler

variable {κ : Type} [DecidableEq κ] {s s' : Scheduler κ}

/-! ## Calls that leave the compaction queue alone -/

/-- The compaction queue and its flags. -/
def compactions (s : Scheduler κ) : List κ × (κ → Bool) :=
  (s.compactionQueue, s.queuedForCompaction)

lemma compactions_unrefAndTryDelete (holder : RefHolder) (cfd : κ) (s : Scheduler κ) :
    (s.unrefAndTryDelete holder cfd).2.compactions = s.compactions := by
  obtain ⟨refs, superVersion, heq, -⟩ := s.unrefAndTryDelete_spec holder cfd
  rw [heq]
  rfl

lemma compactions_unrefAll (holder : RefHolder) (cfds : List κ) (s : Scheduler κ) :
    (s.unrefAll holder cfds).compactions = s.compactions := by
  obtain ⟨refs, superVersion, heq, -⟩ := s.unrefAll_spec holder cfds
  rw [heq]
  rfl

variable {opts : SchedulerOptions} {req : FlushRequest κ}

lemma compactions_enqueuePendingFlush {imm : κ → ImmState} {enqueued : Bool}
    (h : s.enqueuePendingFlush opts imm req = some (enqueued, s')) :
    s'.compactions = s.compactions := by
  rcases enqueuePendingFlush_spec h with ⟨-, rfl⟩ | ⟨-, -, queued, unscheduled, refs, rfl, -⟩
  · rfl
  · rfl

lemma compactions_popFirstFromFlushQueue (h : s.popFirstFromFlushQueue opts = some (req, s')) :
    s'.compactions = s.compactions := by
  obtain ⟨rest, queued, -, rfl⟩ := popFirstFromFlushQueue_spec h
  rfl

lemma Exit.compactions_eq {env : FlushEnv κ} {outcome : Option FlushOutcome}
    (h : Exit opts env req s outcome s') : s'.compactions = s.compactions := by
  cases h with
  | dropped => exact compactions_unrefAll _ _ s
  | deleted => exact compactions_unrefAndTryDelete _ _ s
  | retained _ _ henqueue =>
    rw [compactions_enqueuePendingFlush henqueue, compactions_unrefAndTryDelete]
  | stalled _ _ _ henqueue => exact compactions_enqueuePendingFlush henqueue
  | flushing => rfl
  | skipped => exact compactions_unrefAll _ _ s
  | empty => rfl

lemma compactions_backgroundFlush {env : FlushEnv κ} {outcome : FlushOutcome}
    (h : s.backgroundFlush opts env = some (outcome, s')) : s'.compactions = s.compactions := by
  have hround : ∀ (t : Scheduler κ) req t₁ outcome t₂, t.compactions = s.compactions →
      t.popFirstFromFlushQueue opts = some (req, t₁) → Exit opts env req t₁ outcome t₂ →
      t₂.compactions = s.compactions := by
    intro t req t₁ outcome t₂ ht hpop hexit
    rw [hexit.compactions_eq, compactions_popFirstFromFlushQueue hpop, ht]
  exact backgroundFlush_rule (P := fun t => t.compactions = s.compactions) (fun _ _ ht => ht)
    (fun t req t₁ t₂ ht hpop hexit => hround t req t₁ none t₂ ht hpop hexit)
    (fun _ t req t₁ outcome t₂ ht hpop hexit => hround t req t₁ outcome t₂ ht hpop hexit) rfl h

lemma compactions_finishFlush (i : ℕ) (s : Scheduler κ) :
    (s.finishFlush i).compactions = s.compactions := by
  unfold finishFlush
  split
  · rfl
  · exact compactions_unrefAll .flushQueue _ s

omit [DecidableEq κ] in
lemma compactions_maybeSchedule (env : ScheduleEnv) (s : Scheduler κ) :
    (s.maybeScheduleFlushOrCompaction env).compactions = s.compactions := by
  unfold maybeScheduleFlushOrCompaction
  dsimp only
  split_ifs <;> rfl

lemma compactions_closeFlushes {n : ℕ} (h : s.closeFlushes opts n = some s') :
    s'.compactions = s.compactions := by
  induction n generalizing s with
  | zero =>
    cases h
    rfl
  | succ n ih =>
    unfold closeFlushes at h
    split_ifs at h
    · cases h
      rfl
    · obtain ⟨s₁, hround, h⟩ := bind_eq_some_iff.1 h
      obtain ⟨⟨req, s₂⟩, hpop, rfl⟩ := map_eq_some_iff.1 hround
      rw [ih h, compactions_unrefAll, compactions_popFirstFromFlushQueue hpop]

/-! ## Calls on the compaction queue -/

omit [DecidableEq κ] in
/-- The picking loop only moves entries: the throttled ones, the one picked and the rest are the
queue. -/
lemma pickLoop_append (requestToken : ℕ → κ → Bool) (n : ℕ) (throttled queue : List κ) :
    (pickLoop requestToken n throttled queue).2.1 ++
      ((pickLoop requestToken n throttled queue).1.toList ++
        (pickLoop requestToken n throttled queue).2.2) = throttled ++ queue := by
  induction queue generalizing n throttled with
  | nil => simp [pickLoop]
  | cons cfd rest ih =>
    unfold pickLoop
    split_ifs
    · rfl
    · rw [ih, append_assoc]
      rfl

/-- A pick takes at most one entry out of the queue and clears the flag of its column family. -/
lemma pickCompactionFromQueue_spec {requestToken : ℕ → κ → Bool} {picked : Option κ}
    (h : s.pickCompactionFromQueue requestToken = some (picked, s')) :
    ∃ front back, s.compactionQueue = front ++ (picked.toList ++ back) ∧
      s' = { s with
        compactionQueue := front ++ back
        queuedForCompaction := fun c =>
          if picked = some c then false else s.queuedForCompaction c } := by
  unfold pickCompactionFromQueue at h
  split_ifs at h
  have hloop := pickLoop_append requestToken 0 [] s.compactionQueue
  rw [nil_append] at hloop
  have hback : ∀ throttled rest : List κ,
      throttled.reverse.foldl (fun queue cfd => cfd :: queue) rest = throttled ++ rest := by simp
  simp only [hback] at h
  cases hpicked : (pickLoop requestToken 0 [] s.compactionQueue).1 with
  | none =>
    rw [hpicked] at h hloop
    cases h
    exact ⟨_, _, hloop.symm, by simp⟩
  | some cfd =>
    rw [hpicked] at h hloop
    cases h
    refine ⟨_, _, hloop.symm, ?_⟩
    congr 1
    funext c
    by_cases hc : c = cfd
    · subst hc
      simp
    · simp [hc, Ne.symm hc]

/-- Every column family is at most once in the queue, and it is there when its flag is set. -/
structure SingleEntries (s : Scheduler κ) : Prop where
  nodup : s.compactionQueue.Nodup
  mem_iff : ∀ cfd, cfd ∈ s.compactionQueue ↔ s.queuedForCompaction cfd = true

namespace SingleEntries

omit [DecidableEq κ] in
lemma of_compactions_eq (h : s.SingleEntries) (heq : s'.compactions = s.compactions) :
    s'.SingleEntries := by
  obtain ⟨hqueue, hflags⟩ := Prod.mk.inj heq
  refine ⟨hqueue ▸ h.nodup, fun cfd => ?_⟩
  rw [hqueue, hflags]
  exact h.mem_iff cfd

section

variable (h : s.SingleEntries)

include h

/-- One entry leaves the queue and its flag is cleared. -/
lemma remove {front back : List κ} {picked : Option κ}
    (hqueue : s.compactionQueue = front ++ (picked.toList ++ back))
    (heq : s'.compactions = (front ++ back,
      fun c => if picked = some c then false else s.queuedForCompaction c)) : s'.SingleEntries := by
  obtain ⟨hqueue', hflags⟩ := Prod.mk.inj heq
  have hnodup := h.nodup
  rw [hqueue] at hnodup
  refine ⟨?_, fun cfd => ?_⟩
  · rw [hqueue']
    exact hnodup.sublist (Sublist.append_left (sublist_append_right _ _) _)
  · have hmem := h.mem_iff cfd
    rw [hqueue', hflags]
    dsimp only
    split_ifs with hpicked
    · -- the entry that left was the only one
      subst hpicked
      rw [toList_some, singleton_append, nodup_middle, nodup_cons] at hnodup
      simp [hnodup.1]
    · rw [← hmem, hqueue]
      cases picked with
      | none => simp
      | some c =>
        have hne : cfd ≠ c := fun hc => hpicked (congrArg some hc.symm)
        simp [hne]

lemma addToCompactionQueue {cfd : κ}
    (hadd : s.addToCompactionQueue cfd = some s') : s'.SingleEntries := by
  unfold Scheduler.addToCompactionQueue at hadd
  split_ifs at hadd with hqueued
  cases hadd
  have hnotMem : cfd ∉ s.compactionQueue := fun hmem => hqueued ((h.mem_iff cfd).1 hmem)
  refine ⟨?_, fun c => ?_⟩
  · change (s.compactionQueue ++ [cfd]).Nodup
    exact h.nodup.append (nodup_singleton cfd) (by simpa using hnotMem)
  · change c ∈ s.compactionQueue ++ [cfd] ↔ Function.update s.queuedForCompaction cfd true c = true
    rw [mem_append, mem_singleton, h.mem_iff]
    by_cases hc : c = cfd
    · subst hc
      simp
    · simp [hc]

lemma enqueuePendingCompaction {cfd : κ} {numGroups : ℕ} {needsCompaction : Bool}
    (hsingle : s.rejectNewBackgroundJobs = true ∨ s.queuedForCompaction cfd = true ∨ numGroups ≤ 1)
    (henqueue : s.enqueuePendingCompaction cfd numGroups needsCompaction = some s') :
    s'.SingleEntries := by
  unfold Scheduler.enqueuePendingCompaction at henqueue
  split_ifs at henqueue with hreject hqueued hnone
  · cases henqueue
    exact h
  · cases henqueue
    exact h
  · exact h.addToCompactionQueue henqueue
  · rcases hsingle with hreject' | hqueued' | hle
    · exact absurd hreject' hreject
    · exact absurd hqueued' hqueued
    · -- a single round of the loop, or none
      obtain rfl | rfl : numGroups = 0 ∨ numGroups = 1 := by omega
      · cases henqueue
        exact h
      · obtain ⟨s₁, hadd, hdone⟩ := bind_eq_some_iff.1 henqueue
        cases hdone
        exact h.addToCompactionQueue hadd

/-- The head of the queue passes the assertion of `PopFirstFromCompactionQueue`. -/
lemma closePopCompaction (hqueue : s.compactionQueue ≠ []) :
    ∃ s', s.closePopCompaction = some s' ∧ s'.SingleEntries ∧
      s.compactionQueue.length = s'.compactionQueue.length + 1 := by
  obtain ⟨cfd, rest, hcons⟩ := List.exists_cons_of_ne_nil hqueue
  have hflag : s.queuedForCompaction cfd = true := (h.mem_iff cfd).1 (by simp [hcons])
  have hpop : s.popFirstFromCompactionQueue = some (cfd, { s with
      compactionQueue := rest
      queuedForCompaction := Function.update s.queuedForCompaction cfd false }) := by
    unfold popFirstFromCompactionQueue
    simp only [hcons, hflag, if_true]
  have hcompactions := compactions_unrefAndTryDelete .compactionQueue cfd { s with
    compactionQueue := rest
    queuedForCompaction := Function.update s.queuedForCompaction cfd false }
  refine ⟨_, by rw [Scheduler.closePopCompaction, hpop, Option.map_some], ?_, ?_⟩
  · have hfront : s.compactionQueue = [] ++ ((some cfd).toList ++ rest) := hcons
    refine h.remove hfront ?_
    refine hcompactions.trans (Prod.ext rfl (funext fun c => ?_))
    by_cases hc : c = cfd
    · subst hc
      simp [compactions]
    · simp [compactions, hc, Ne.symm hc]
  · have hlength := congrArg (fun p => p.1.length) hcompactions
    simp only [compactions] at hlength
    rw [hcons, List.length_cons, hlength]

lemma closeCompactions {n : ℕ} (hn : s.compactionQueue.length ≤ n) :
    ∃ s', s.closeCompactions n = some s' ∧ s'.SingleEntries ∧ s'.compactionQueue = [] := by
  induction n generalizing s with
  | zero => exact ⟨s, rfl, h, eq_nil_of_length_eq_zero (Nat.le_zero.1 hn)⟩
  | succ n ih =>
    unfold closeCompactions
    by_cases hqueue : s.compactionQueue = []
    · exact ⟨s, if_pos hqueue, h, hqueue⟩
    · obtain ⟨s₁, hround, h₁, hlength⟩ := h.closePopCompaction hqueue
      obtain ⟨s₂, hloop, h₂, hempty⟩ := ih h₁ (by omega)
      refine ⟨s₂, ?_, h₂, hempty⟩
      rw [if_neg hqueue, hround, bind_some, hloop]

lemma pickInBackground {exclusive : Bool} {requestToken : ℕ → κ → Bool}
    {picked : Option κ} (hpick : s.pickInBackground exclusive requestToken = some (picked, s')) :
    s'.SingleEntries := by
  unfold Scheduler.pickInBackground at hpick
  split_ifs at hpick
  · cases hpick
    exact h
  · cases hpick
    exact h.of_compactions_eq rfl
  · split at hpick
    · cases hpick
    · rename_i s₁ hqueue
      cases hpick
      obtain ⟨front, back, hfront, rfl⟩ := pickCompactionFromQueue_spec hqueue
      exact h.remove hfront rfl
    · rename_i cfd s₁ hqueue
      cases hpick
      obtain ⟨front, back, hfront, rfl⟩ := pickCompactionFromQueue_spec hqueue
      exact h.remove hfront (compactions_unrefAndTryDelete .compactionQueue cfd _)

end

end SingleEntries

/-! ## Runs -/

/-- `EnqueuePendingCompaction` adds at most one entry: jobs are rejected, the column family is
queued already, or it has at most one group that needs compaction. -/
def Call.SingleGroup (s : Scheduler κ) : Call κ → Prop
  | .enqueuePendingCompaction cfd numGroups _ =>
    s.rejectNewBackgroundJobs = true ∨ s.queuedForCompaction cfd = true ∨ numGroups ≤ 1
  | _ => True

lemma SingleEntries.apply {call : Call κ} (h : s.SingleEntries) (hsingle : call.SingleGroup s)
    (happly : call.apply opts s = some s') : s'.SingleEntries := by
  cases call with
  | enqueuePendingFlush imm req =>
    obtain ⟨⟨enqueued, s₁⟩, henqueue, rfl⟩ := map_eq_some_iff.1 happly
    exact h.of_compactions_eq (compactions_enqueuePendingFlush henqueue)
  | backgroundFlush env =>
    obtain ⟨⟨outcome, s₁⟩, hflush, rfl⟩ := map_eq_some_iff.1 happly
    exact h.of_compactions_eq (compactions_backgroundFlush hflush)
  | finishFlush i =>
    cases happly
    exact h.of_compactions_eq (compactions_finishFlush i s)
  | enqueuePendingCompaction cfd numGroups needs => exact h.enqueuePendingCompaction hsingle happly
  | pickInBackground exclusive requestToken =>
    obtain ⟨⟨picked, s₁⟩, hpick, rfl⟩ := map_eq_some_iff.1 happly
    exact h.pickInBackground hpick
  | popFirstFromCompactionQueue =>
    change (if s.compactionQueue = [] then some s else s.closePopCompaction) = some s' at happly
    split_ifs at happly with hqueue
    · cases happly
      exact h
    · obtain ⟨s₁, hround, h₁, -⟩ := h.closePopCompaction hqueue
      cases hround.symm.trans happly
      exact h₁
  | maybeScheduleFlushOrCompaction env =>
    cases happly
    exact h.of_compactions_eq (compactions_maybeSchedule env s)
  | closeHelper =>
    obtain ⟨s₁, hflushes, hcompactions⟩ := bind_eq_some_iff.1 happly
    have h₁ := h.of_compactions_eq (compactions_closeFlushes hflushes)
    obtain ⟨s₂, hloop, h₂, -⟩ := h₁.closeCompactions (Nat.le_refl _)
    cases hloop.symm.trans hcompactions
    exact h₂
  | ref cfd =>
    cases happly
    exact h.of_compactions_eq rfl
  | unrefAndTryDelete cfd =>
    cases happly
    exact h.of_compactions_eq (compactions_unrefAndTryDelete .others cfd s)
  | installSuperVersion cfd superVersion =>
    cases happly
    exact h.of_compactions_eq rfl
  | setScheduled f c b =>
    cases happly
    exact h.of_compactions_eq rfl
  | rejectNewBackgroundJobs reject =>
    cases happly
    exact h.of_compactions_eq rfl

/-- The contract of `compaction_queue_`: an entry for exactly the column families whose flag is
set, no assertion of `PopFirstFromCompactionQueue` or of the drain at shutdown fails, and a column
family in the queue is not added again. -/
structure QueueContract (s : Scheduler κ) : Prop where
  mem_iff : ∀ cfd, cfd ∈ s.compactionQueue ↔ s.queuedForCompaction cfd = true
  pop_isSome : s.compactionQueue ≠ [] → s.popFirstFromCompactionQueue.isSome
  close_isSome : (s.closeCompactions s.compactionQueue.length).isSome
  enqueue_again : ∀ cfd ∈ s.compactionQueue, ∀ numGroups needsCompaction,
    s.enqueuePendingCompaction cfd numGroups needsCompaction = some s

lemma SingleEntries.queueContract (h : s.SingleEntries) : s.QueueContract where
  mem_iff := h.mem_iff
  pop_isSome hqueue := by
    obtain ⟨s', hround, -⟩ := h.closePopCompaction hqueue
    obtain ⟨r, hpop, -⟩ := map_eq_some_iff.1 hround
    rw [hpop]
    rfl
  close_isSome := by
    obtain ⟨s', hloop, -⟩ := h.closeCompactions (Nat.le_refl _)
    rw [hloop]
    rfl
  enqueue_again cfd hcfd numGroups needsCompaction := by
    unfold Scheduler.enqueuePendingCompaction
    rw [if_pos ((h.mem_iff cfd).1 hcfd)]
    split_ifs <;> rfl

/-- A call that adds at most one entry to the compaction queue. -/
def SingleGroupStep (opts : SchedulerOptions) (s s' : Scheduler κ) : Prop :=
  ∃ call : Call κ, call.SingleGroup s ∧ call.apply opts s = some s'

/-- Along every run whose calls of `EnqueuePendingCompaction` find at most one group, the queue
keeps its contract. -/
theorem compaction_queue_contract (opts : SchedulerOptions) (refs : κ → ℤ)
    (superVersion : κ → Option ℕ)
    (hrun : Relation.ReflTransGen (SingleGroupStep opts) (opened refs superVersion) s) :
    s.QueueContract := by
  refine SingleEntries.queueContract ?_
  induction hrun with
  | refl => exact ⟨List.nodup_nil, fun cfd => by simp [opened]⟩
  | tail _ hstep ih =>
    obtain ⟨call, hsingle, happly⟩ := hstep
    exact ih.apply hsingle happly

/-- Two column families with one group each; the first one is compacted and queued again. -/
theorem compaction_queue_contract_requeued :
    ∃ s : Scheduler ℕ, s.compactionQueue = [1, 0] ∧ s.QueueContract :=
  ⟨_, rfl, compaction_queue_contract ⟨false, 1⟩ (fun _ => 1) (fun _ => none)
    ((((Relation.ReflTransGen.single
      ⟨.enqueuePendingCompaction 0 1 true, .inr (.inr (by decide)), rfl⟩).tail
      ⟨.enqueuePendingCompaction 1 0 true, .inr (.inr (by decide)), rfl⟩).tail
      ⟨.pickInBackground false fun _ _ => true, trivial, rfl⟩).tail
      ⟨.enqueuePendingCompaction 0 1 true, .inr (.inr (by decide)), rfl⟩)⟩

/-- A column family with two groups is queued twice. After the first pick it is still in the
queue with its flag cleared: the assertion at shutdown fails, and it can be queued again. -/
theorem second_group_outlives_flag : ∃ s : Scheduler ℕ, Relation.ReflTransGen (Step ⟨false, 1⟩)
        (opened (fun _ => 1) fun _ => none) s ∧
      (0 ∈ s.compactionQueue ∧ s.queuedForCompaction 0 = false) ∧
      (s.closeCompactions s.compactionQueue.length).isNone ∧
      (s.enqueuePendingCompaction 0 1 true).map (·.compactionQueue) = some [0, 0] ∧
      ¬ s.QueueContract := by
  refine ⟨_, (Relation.ReflTransGen.single ⟨.enqueuePendingCompaction 0 2 true, rfl⟩).tail
    ⟨.pickInBackground false fun _ _ => true, rfl⟩, ⟨mem_singleton_self 0, rfl⟩, rfl, rfl, ?_⟩
  intro h
  exact Bool.false_ne_true (h.pop_isSome (cons_ne_nil 0 []))

end Scheduler

end BucketLSM
