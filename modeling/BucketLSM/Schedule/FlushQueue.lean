import BucketLSM.Schedule.Queues

/-!
# The references of `flush_queue_`

`EnqueuePendingFlush` takes a reference on every column family of the request it queues, and
whoever serves or drops the request gives it back. The exit of `BackgroundFlush` that waits for
level 0 in bucket mode queues the popped request again without giving its references back. Every
other exit keeps one reference for each request queued or being served.
-/

namespace BucketLSM

open Option List

namespace Scheduler

variable {κ : Type} [DecidableEq κ] {s s' : Scheduler κ}

/-! ## The count -/

/-- The number of queued flush requests that name a column family. -/
def queuedRequests (s : Scheduler κ) (cfd : κ) : ℕ :=
  s.flushQueue.countP fun req => decide (cfd ∈ req.cfds)

/-- The number of requests naming a column family that are popped and being served. -/
def servedRequests (s : Scheduler κ) (cfd : κ) : ℕ :=
  s.running.countP fun cfds => decide (cfd ∈ cfds)

/-- `flush_queue_` holds one reference for each request queued or being served. -/
def FlushRefsCounted (s : Scheduler κ) : Prop :=
  ∀ cfd, s.refs .flushQueue cfd = s.queuedRequests cfd + s.servedRequests cfd

/-- What the count depends on. -/
def flushView (s : Scheduler κ) : List (FlushRequest κ) × List (List κ) × (κ → ℤ) :=
  (s.flushQueue, s.running, s.refs .flushQueue)

omit [DecidableEq κ] in
lemma flushView_eq_iff : s'.flushView = s.flushView ↔
    s'.flushQueue = s.flushQueue ∧ s'.running = s.running ∧
      s'.refs .flushQueue = s.refs .flushQueue := by
  unfold flushView
  rw [Prod.mk.injEq, Prod.mk.injEq]

lemma flushRefsCounted_congr (h : s'.flushView = s.flushView) :
    s'.FlushRefsCounted ↔ s.FlushRefsCounted := by
  obtain ⟨hqueue, hrunning, hrefs⟩ := flushView_eq_iff.1 h
  unfold FlushRefsCounted queuedRequests servedRequests
  rw [hqueue, hrunning, hrefs]

/-! ## Calls that leave the flush queue alone -/

lemma flushView_unrefAndTryDelete {holder : RefHolder} (hholder : holder ≠ .flushQueue) (cfd : κ)
    (s : Scheduler κ) : (s.unrefAndTryDelete holder cfd).2.flushView = s.flushView := by
  obtain ⟨refs, superVersion, heq, hrefs⟩ := s.unrefAndTryDelete_spec holder cfd
  rw [heq, flushView_eq_iff]
  refine ⟨rfl, rfl, funext fun c => ?_⟩
  dsimp only
  rw [hrefs .flushQueue (by decide) c, if_neg fun h => hholder h.1.symm, sub_zero]

lemma flushView_ref {holder : RefHolder} (hholder : holder ≠ .flushQueue) (cfd : κ)
    (s : Scheduler κ) : (s.ref holder cfd).flushView = s.flushView := by
  rw [flushView_eq_iff]
  refine ⟨rfl, rfl, funext fun c => ?_⟩
  exact if_neg fun h => hholder h.1.symm

lemma flushView_pushCompaction (cfd : κ) (s : Scheduler κ) :
    (s.pushCompaction cfd).flushView = s.flushView :=
  flushView_ref (by decide : RefHolder.compactionQueue ≠ .flushQueue) cfd s

lemma flushView_addToCompactionQueue {cfd : κ} (h : s.addToCompactionQueue cfd = some s') :
    s'.flushView = s.flushView := by
  unfold addToCompactionQueue at h
  split_ifs at h
  cases h
  exact flushView_pushCompaction cfd s

lemma flushView_enqueuePendingCompaction {cfd : κ} {numGroups : ℕ} {needsCompaction : Bool}
    (h : s.enqueuePendingCompaction cfd numGroups needsCompaction = some s') :
    s'.flushView = s.flushView := by
  have hloop : ∀ (l : List ℕ) (s s' : Scheduler κ), l.foldlM (fun s i =>
      if i = 0 then s.addToCompactionQueue cfd else some (s.pushCompaction cfd)) s = some s' →
      s'.flushView = s.flushView := by
    intro l
    induction l with
    | nil =>
      intro s s' h
      cases h
      rfl
    | cons i l ih =>
      intro s s' h
      obtain ⟨s₁, hround, h⟩ := bind_eq_some_iff.1 h
      rw [ih _ _ h]
      dsimp only at hround
      split_ifs at hround
      · exact flushView_addToCompactionQueue hround
      · cases hround
        exact flushView_pushCompaction cfd s
  unfold enqueuePendingCompaction at h
  split_ifs at h
  · cases h
    rfl
  · cases h
    rfl
  · exact flushView_addToCompactionQueue h
  · exact hloop _ _ _ h

lemma flushView_pickInBackground {exclusive : Bool} {requestToken : ℕ → κ → Bool}
    {picked : Option κ} (h : s.pickInBackground exclusive requestToken = some (picked, s')) :
    s'.flushView = s.flushView := by
  have hpick : ∀ {picked s₁}, s.pickCompactionFromQueue requestToken = some (picked, s₁) →
      s₁.flushView = s.flushView := by
    intro picked s₁ h
    unfold pickCompactionFromQueue at h
    split_ifs at h
    dsimp only at h
    split at h <;> cases h <;> rfl
  unfold pickInBackground at h
  split_ifs at h
  · cases h
    rfl
  · cases h
    rfl
  · split at h
    · cases h
    · rename_i s₁ hqueue
      cases h
      exact (hpick hqueue : s₁.flushView = s.flushView)
    · rename_i cfd s₁ hqueue
      cases h
      exact (flushView_unrefAndTryDelete (by decide) cfd s₁).trans (hpick hqueue)

lemma flushView_closePopCompaction (h : s.closePopCompaction = some s') :
    s'.flushView = s.flushView := by
  obtain ⟨⟨cfd, s₁⟩, hpop, rfl⟩ := map_eq_some_iff.1 h
  rw [flushView_unrefAndTryDelete (by decide)]
  unfold popFirstFromCompactionQueue at hpop
  split at hpop
  · cases hpop
  · split_ifs at hpop
    cases hpop
    rfl

lemma flushView_closeCompactions {n : ℕ} (h : s.closeCompactions n = some s') :
    s'.flushView = s.flushView := by
  induction n generalizing s with
  | zero =>
    cases h
    rfl
  | succ n ih =>
    unfold closeCompactions at h
    split_ifs at h
    · cases h
      rfl
    · obtain ⟨s₁, hround, h⟩ := bind_eq_some_iff.1 h
      rw [ih h, flushView_closePopCompaction hround]

omit [DecidableEq κ] in
lemma flushView_maybeSchedule (env : ScheduleEnv) (s : Scheduler κ) :
    (s.maybeScheduleFlushOrCompaction env).flushView = s.flushView := by
  unfold maybeScheduleFlushOrCompaction
  dsimp only
  split_ifs <;> rfl

/-! ## Requests that come and go -/

lemma count_cfds (req : FlushRequest κ) (cfd : κ) :
    req.cfds.count cfd = if cfd ∈ req.cfds then 1 else 0 :=
  Nodup.count req.nodup

/-- `flush_queue_` holds one reference for each request queued or being served, and those of a
request that has been popped. -/
def Owes (s : Scheduler κ) (cfds : List κ) : Prop :=
  ∀ cfd, s.refs .flushQueue cfd = s.queuedRequests cfd + s.servedRequests cfd + cfds.count cfd

lemma owes_nil : s.Owes [] ↔ s.FlushRefsCounted :=
  forall_congr' fun cfd => by simp

variable {cfds : List κ} {opts : SchedulerOptions} {req : FlushRequest κ}

lemma Owes.not_counted (h : s.Owes cfds) (hcfds : cfds ≠ []) : ¬ s.FlushRefsCounted := by
  intro hcounted
  obtain ⟨cfd, hcfd⟩ := exists_mem_of_ne_nil cfds hcfds
  have hpos := count_pos_iff.2 hcfd
  have howed := h cfd
  rw [hcounted cfd] at howed
  omega

lemma Owes.unrefAll (h : s.Owes cfds) : (s.unrefAll .flushQueue cfds).FlushRefsCounted := by
  obtain ⟨refs, superVersion, heq, hrefs⟩ := s.unrefAll_spec .flushQueue cfds
  intro cfd
  have howed := h cfd
  have hrefs' := hrefs .flushQueue (by decide) cfd
  rw [if_pos rfl] at hrefs'
  rw [heq]
  change refs .flushQueue cfd = s.queuedRequests cfd + s.servedRequests cfd
  omega

lemma Owes.enqueuePendingFlush (h : s.Owes cfds) {imm : κ → ImmState} {enqueued : Bool}
    (henqueue : s.enqueuePendingFlush opts imm req = some (enqueued, s')) : s'.Owes cfds := by
  rcases enqueuePendingFlush_spec henqueue with ⟨-, rfl⟩ | ⟨-, -, queued, unscheduled, refs, rfl,
    hrefs⟩
  · exact h
  · intro cfd
    have howed := h cfd
    have hrefs' := hrefs .flushQueue cfd
    rw [if_pos rfl, count_cfds] at hrefs'
    change refs .flushQueue cfd = ((s.flushQueue ++ [req]).countP fun req =>
      decide (cfd ∈ req.cfds) : ℕ) + s.servedRequests cfd + cfds.count cfd
    rw [countP_append, countP_singleton, hrefs', howed, queuedRequests]
    simp only [decide_eq_true_eq]
    push_cast
    ring

/-- What the invariant says of the requests themselves. -/
structure WellFormed (s : Scheduler κ) : Prop where
  nonempty : ∀ req ∈ s.flushQueue, req.cfds ≠ []
  nodup : ∀ cfds ∈ s.running, cfds.Nodup

/-- The invariant of the flush queue. -/
structure FlushRefs (s : Scheduler κ) : Prop extends s.WellFormed where
  counted : s.FlushRefsCounted

lemma FlushRefs.of_flushView_eq (h : s.FlushRefs) (heq : s'.flushView = s.flushView) :
    s'.FlushRefs := by
  obtain ⟨hqueue, hrunning, -⟩ := flushView_eq_iff.1 heq
  refine ⟨⟨?_, ?_⟩, (flushRefsCounted_congr heq).2 h.counted⟩
  · rw [hqueue]
    exact h.nonempty
  · rw [hrunning]
    exact h.nodup

omit [DecidableEq κ] in
lemma WellFormed.of_eq (h : s.WellFormed) (hqueue : s'.flushQueue = s.flushQueue)
    (hrunning : s'.running = s.running) : s'.WellFormed :=
  ⟨hqueue ▸ h.nonempty, hrunning ▸ h.nodup⟩

lemma WellFormed.enqueuePendingFlush (h : s.WellFormed) {imm : κ → ImmState} {enqueued : Bool}
    (henqueue : s.enqueuePendingFlush opts imm req = some (enqueued, s')) : s'.WellFormed := by
  rcases enqueuePendingFlush_spec henqueue with ⟨-, rfl⟩ | ⟨-, hreq, queued, unscheduled, refs, rfl,
    -⟩
  · exact h
  · refine ⟨fun r hr => ?_, h.nodup⟩
    rcases mem_append.1 hr with hr | hr
    · exact h.nonempty r hr
    · rw [mem_singleton.1 hr]
      exact hreq

lemma WellFormed.unrefAll (h : s.WellFormed) (holder : RefHolder) (cfds : List κ) :
    (s.unrefAll holder cfds).WellFormed := by
  obtain ⟨refs, superVersion, heq, -⟩ := s.unrefAll_spec holder cfds
  rw [heq]
  exact h.of_eq rfl rfl

lemma FlushRefs.popFirstFromFlushQueue (h : s.FlushRefs)
    (hpop : s.popFirstFromFlushQueue opts = some (req, s')) :
    s.flushQueue.head? = some req ∧ req.cfds ≠ [] ∧ s'.WellFormed ∧ s'.Owes req.cfds := by
  obtain ⟨rest, queued, hqueue, rfl⟩ := popFirstFromFlushQueue_spec hpop
  have hnonempty := h.nonempty
  rw [hqueue, forall_mem_cons] at hnonempty
  refine ⟨by rw [hqueue, head?_cons], hnonempty.1, ⟨hnonempty.2, h.nodup⟩, fun cfd => ?_⟩
  have hcounted := h.counted cfd
  unfold queuedRequests at hcounted
  rw [hqueue, countP_cons] at hcounted
  change s.refs .flushQueue cfd = (rest.countP fun req => decide (cfd ∈ req.cfds) : ℕ) +
    s.servedRequests cfd + req.cfds.count cfd
  rw [hcounted, count_cfds]
  simp only [decide_eq_true_eq]
  push_cast
  ring

/-! ## The exits of `BackgroundFlush` -/

section Exits

variable {opts : SchedulerOptions} {env : FlushEnv κ} {req : FlushRequest κ}
  {outcome : Option FlushOutcome}

omit [DecidableEq κ] in
lemma perm_filter_flushes (cfds : List κ) :
    (cfds.filter env.flushes ++ cfds.filter fun cfd => !env.flushes cfd).Perm cfds :=
  filter_append_perm env.flushes cfds

lemma Exit.wellFormed (h : Exit opts env req s outcome s') (hs : s.WellFormed) : s'.WellFormed := by
  cases h with
  | dropped => exact hs.unrefAll _ _
  | @deleted cfd => exact hs.unrefAll .flushQueue [cfd]
  | @retained cfd _ _ _ _ henqueue => exact (hs.unrefAll .flushQueue [cfd]).enqueuePendingFlush henqueue
  | stalled _ _ _ henqueue => exact hs.enqueuePendingFlush henqueue
  | flushing =>
    refine ⟨hs.nonempty, fun cfds hcfds => ?_⟩
    rcases mem_append.1 hcfds with hcfds | hcfds
    · exact hs.nodup cfds hcfds
    · rw [mem_singleton.1 hcfds]
      exact (perm_filter_flushes req.cfds).nodup_iff.2 req.nodup
  | skipped => exact hs.unrefAll _ _
  | empty => exact hs

/-- The exit of bucket mode. -/
def FlushEnv.StallsFor (opts : SchedulerOptions) (env : FlushEnv κ) (req : FlushRequest κ) : Prop :=
  env.dropsRequest req = false ∧ env.retainsUDT opts req = false ∧ env.stalls opts req = true

section

variable (h : Exit opts env req s outcome s') (howes : s.Owes req.cfds)

include h howes

/-- Every other exit gives the references of the request back, or passes them on with it. -/
lemma Exit.counted (hstall : ¬ env.StallsFor opts req) : s'.FlushRefsCounted := by
  cases h with
  | dropped => exact howes.unrefAll
  | deleted _ hcfds =>
    rw [hcfds] at howes
    exact howes.unrefAll
  | retained _ hcfds henqueue =>
    rw [hcfds] at howes
    exact owes_nil.1 ((owes_nil.2 howes.unrefAll).enqueuePendingFlush henqueue)
  | stalled hdrop hretain hstalls => exact absurd ⟨hdrop, hretain, hstalls⟩ hstall
  | flushing =>
    intro cfd
    change s.refs .flushQueue cfd = s.queuedRequests cfd +
      ((s.running ++ [_]).countP fun cfds => decide (cfd ∈ cfds) : ℕ)
    rw [howes cfd, count_cfds, countP_append, countP_singleton, servedRequests]
    simp only [(perm_filter_flushes req.cfds).mem_iff, decide_eq_true_eq]
    push_cast
    ring
  | skipped _ hargs =>
    have hall : (req.cfds.filter fun cfd => !env.flushes cfd) = req.cfds := by
      refine filter_eq_self.2 fun cfd hcfd => ?_
      simpa using filter_eq_nil_iff.1 hargs cfd hcfd
    rw [hall]
    exact howes.unrefAll
  | empty hcfds =>
    rw [hcfds] at howes
    exact owes_nil.1 howes

/-- The exit of bucket mode keeps the references of the popped request, whether or not the request
is queued again. -/
lemma Exit.owes (hreq : req.cfds ≠ []) (hstall : env.StallsFor opts req) : s'.Owes req.cfds := by
  obtain ⟨hdrop, hretain, hstalls⟩ := hstall
  cases h with
  | dropped hdrop' => exact absurd hdrop' (by simp [hdrop])
  | deleted hretain' | retained hretain' => exact absurd hretain' (by simp [hretain])
  | stalled _ _ _ henqueue => exact howes.enqueuePendingFlush henqueue
  | flushing hstalls' | skipped hstalls' => exact absurd hstalls (by simp [hstalls'])
  | empty hcfds => exact absurd hcfds hreq

end

/-- The request at the front of the queue is let through to the exit of bucket mode. -/
def StallsAtFront (opts : SchedulerOptions) (env : FlushEnv κ) (s : Scheduler κ) : Prop :=
  env.refuses = none ∧ ∃ req ∈ s.flushQueue.head?, env.StallsFor opts req

lemma FlushRefs.backgroundFlush (h : s.FlushRefs) {outcome : FlushOutcome}
    (hflush : s.backgroundFlush opts env = some (outcome, s')) :
    s'.WellFormed ∧ (s'.FlushRefsCounted ↔ ¬ s.StallsAtFront opts env) := by
  refine backgroundFlush_rule (P := fun t => t = s)
    (Q := fun t => t.WellFormed ∧ (t.FlushRefsCounted ↔ ¬ s.StallsAtFront opts env))
    ?_ ?_ ?_ rfl hflush
  · rintro t hdone rfl
    refine ⟨h.toWellFormed, iff_of_true h.counted ?_⟩
    rintro ⟨hrefuses, req, hreq, -⟩
    rcases hdone with hdone | hdone
    · exact hdone hrefuses
    · simp [hdone] at hreq
  · -- a queued request names a column family, so there is no second round
    rintro t req t₁ t₂ rfl hpop hexit
    cases hexit with
    | empty hcfds => exact absurd hcfds (h.popFirstFromFlushQueue hpop).2.1
  · rintro hrefuses t req t₁ outcome t₂ rfl hpop hexit
    obtain ⟨hhead, hreq, hwf, howes⟩ := h.popFirstFromFlushQueue hpop
    refine ⟨hexit.wellFormed hwf, ?_⟩
    by_cases hstall : env.StallsFor opts req
    · exact iff_of_false ((hexit.owes howes hreq hstall).not_counted hreq)
        (not_not.2 ⟨hrefuses, req, hhead, hstall⟩)
    · refine iff_of_true (hexit.counted howes hstall) ?_
      rintro ⟨-, r, hr, hstall'⟩
      rw [hhead, mem_some_iff] at hr
      exact hstall (hr ▸ hstall')

end Exits

/-! ## Runs -/

lemma FlushRefs.finishFlush (h : s.FlushRefs) (i : ℕ) : (s.finishFlush i).FlushRefs := by
  unfold Scheduler.finishFlush
  cases hi : s.running[i]? with
  | none => exact h
  | some cfds =>
    obtain ⟨hlt, hget⟩ := List.getElem?_eq_some_iff.1 hi
    have hperm := List.getElem_cons_eraseIdx_perm hlt
    rw [hget] at hperm
    have hnodup : cfds.Nodup := h.nodup cfds (List.mem_of_getElem? hi)
    obtain ⟨refs, superVersion, heq, hrefs⟩ := s.unrefAll_spec .flushQueue cfds
    dsimp only
    rw [heq]
    refine ⟨⟨h.nonempty, fun l hl => h.nodup l ((List.eraseIdx_sublist s.running i).mem hl)⟩,
      fun cfd => ?_⟩
    have hcounted := h.counted cfd
    unfold servedRequests at hcounted
    rw [← hperm.countP_eq, List.countP_cons] at hcounted
    have hrefs' := hrefs .flushQueue (by decide) cfd
    rw [if_pos rfl, hnodup.count] at hrefs'
    change refs .flushQueue cfd = s.queuedRequests cfd +
      ((s.running.eraseIdx i).countP fun cfds => decide (cfd ∈ cfds) : ℕ)
    rw [hrefs', hcounted]
    simp only [decide_eq_true_eq]
    push_cast
    ring

lemma FlushRefs.closeFlushes {n : ℕ} (h : s.FlushRefs) (hclose : s.closeFlushes opts n = some s')
    : s'.FlushRefs := by
  induction n generalizing s with
  | zero =>
    cases hclose
    exact h
  | succ n ih =>
    unfold closeFlushes at hclose
    split_ifs at hclose
    · cases hclose
      exact h
    · obtain ⟨s₁, hround, hclose⟩ := bind_eq_some_iff.1 hclose
      obtain ⟨⟨req, s₂⟩, hpop, rfl⟩ := map_eq_some_iff.1 hround
      obtain ⟨-, -, hwf, howes⟩ := h.popFirstFromFlushQueue hpop
      exact ih ⟨hwf.unrefAll _ _, howes.unrefAll⟩ hclose

/-- The call is a `BackgroundFlush` that takes the exit of bucket mode. -/
def Call.Stalls (opts : SchedulerOptions) (s : Scheduler κ) : Call κ → Prop
  | .backgroundFlush env => s.StallsAtFront opts env
  | _ => False

/-- A call keeps the count exactly when it does not take the exit of bucket mode. -/
lemma FlushRefs.apply {call : Call κ} (h : s.FlushRefs) (happly : call.apply opts s = some s') :
    s'.WellFormed ∧ (s'.FlushRefsCounted ↔ ¬ call.Stalls opts s) := by
  have hkeep : s'.FlushRefs → ¬ call.Stalls opts s →
      s'.WellFormed ∧ (s'.FlushRefsCounted ↔ ¬ call.Stalls opts s) :=
    fun h' hstall => ⟨h'.toWellFormed, iff_of_true h'.counted hstall⟩
  cases call with
  | enqueuePendingFlush imm req =>
    obtain ⟨⟨enqueued, s₁⟩, henqueue, rfl⟩ := map_eq_some_iff.1 happly
    exact hkeep ⟨h.toWellFormed.enqueuePendingFlush henqueue,
      owes_nil.1 ((owes_nil.2 h.counted).enqueuePendingFlush henqueue)⟩ id
  | backgroundFlush env =>
    obtain ⟨⟨outcome, s₁⟩, hflush, rfl⟩ := map_eq_some_iff.1 happly
    exact h.backgroundFlush hflush
  | finishFlush i =>
    cases happly
    exact hkeep (h.finishFlush i) id
  | enqueuePendingCompaction cfd numGroups needs =>
    exact hkeep (h.of_flushView_eq (flushView_enqueuePendingCompaction happly)) id
  | pickInBackground exclusive requestToken =>
    obtain ⟨⟨picked, s₁⟩, hpick, rfl⟩ := map_eq_some_iff.1 happly
    exact hkeep (h.of_flushView_eq (flushView_pickInBackground hpick)) id
  | popFirstFromCompactionQueue =>
    change (if s.compactionQueue = [] then some s else s.closePopCompaction) = some s' at happly
    split_ifs at happly
    · cases happly
      exact hkeep h id
    · exact hkeep (h.of_flushView_eq (flushView_closePopCompaction happly)) id
  | maybeScheduleFlushOrCompaction env =>
    cases happly
    exact hkeep (h.of_flushView_eq (flushView_maybeSchedule env s)) id
  | closeHelper =>
    obtain ⟨s₁, hflushes, hcompactions⟩ := bind_eq_some_iff.1 happly
    exact hkeep ((h.closeFlushes hflushes).of_flushView_eq
      (flushView_closeCompactions hcompactions)) id
  | ref cfd =>
    cases happly
    exact hkeep (h.of_flushView_eq (flushView_ref (by decide) cfd s)) id
  | unrefAndTryDelete cfd =>
    cases happly
    exact hkeep (h.of_flushView_eq (flushView_unrefAndTryDelete (by decide) cfd s)) id
  | installSuperVersion cfd superVersion | setScheduled f c b | rejectNewBackgroundJobs reject =>
    cases happly
    exact hkeep (h.of_flushView_eq rfl) id

/-- A call that does not take the exit of bucket mode. -/
def NoStallStep (opts : SchedulerOptions) (s s' : Scheduler κ) : Prop :=
  ∃ call : Call κ, ¬ call.Stalls opts s ∧ call.apply opts s = some s'

/-- Along every run that does not take the exit of bucket mode, `flush_queue_` holds one reference
for each request queued or being served. The next call keeps that exactly when it does not take
that exit either; and if it leaves the same requests queued and served, such as one that is popped
and queued again, it leaves the references as they are. -/
theorem flush_refs_counted (opts : SchedulerOptions) (refs : κ → ℤ) (superVersion : κ → Option ℕ)
    (hrun : Relation.ReflTransGen (NoStallStep opts) (opened refs superVersion) s) :
    s.FlushRefsCounted ∧ ∀ (call : Call κ) (s' : Scheduler κ), call.apply opts s = some s' →
      (s'.FlushRefsCounted ↔ ¬ call.Stalls opts s) ∧
      (¬ call.Stalls opts s → s'.flushQueue.Perm s.flushQueue → s'.running = s.running →
        s'.refs .flushQueue = s.refs .flushQueue) := by
  have h : s.FlushRefs := by
    induction hrun with
    | refl => exact ⟨⟨by simp [opened], by simp [opened]⟩, fun cfd => rfl⟩
    | tail _ hstep ih =>
      obtain ⟨call, hstall, happly⟩ := hstep
      obtain ⟨hwf, hcounted⟩ := ih.apply happly
      exact ⟨hwf, hcounted.2 hstall⟩
  refine ⟨h.counted, fun call s' happly => ⟨(h.apply happly).2, fun hstall hqueue hrunning => ?_⟩⟩
  funext cfd
  rw [h.counted cfd, (h.apply happly).2.2 hstall cfd, queuedRequests, hqueue.countP_eq,
    servedRequests, hrunning]
  rfl

/-- A DB without errors whose column families have a memtable to flush and `l0Files` files in
level 0, where writes stop at 36. -/
def runningEnv (l0Files : ℤ) (retainUDT : Bool) : FlushEnv ℕ where
  isBGWorkStopped := false
  isRecoveryInProgress := false
  shuttingDown := false
  bgError := false
  shouldRescheduleFlushRequestToRetainUDT _ := retainUDT
  l0DelayTriggerCount _ := l0Files
  level0StopWritesTrigger _ := 36
  mempurgeUsed _ := false
  isDropped _ := false
  imm _ := ⟨true, 1, 1⟩

/-- A request is queued, popped and queued again to retain timestamps, and popped to be served. -/
theorem flush_refs_counted_retained :
    ∃ s : Scheduler ℕ, s.flushQueue.length = 0 ∧ s.running = [[0]] ∧ s.FlushRefsCounted := by
  have hretain : ∀ s, ¬ StallsAtFront ⟨false, 1⟩ (runningEnv 36 true) s := by
    rintro s ⟨-, req, hreq, -, hretain, -⟩
    cases hretain
  have hroom : ∀ s, ¬ StallsAtFront ⟨false, 1⟩ (runningEnv 0 false) s := by
    rintro s ⟨-, req, hreq, -, -, hstall⟩
    unfold FlushEnv.stalls at hstall
    split at hstall <;> cases hstall
  exact ⟨_, rfl, rfl, (flush_refs_counted ⟨false, 1⟩ (fun _ => 1) (fun _ => none)
    (((Relation.ReflTransGen.single
      ⟨.enqueuePendingFlush (runningEnv 0 true).imm (.single .manualFlush 0 7), id, rfl⟩).tail
      ⟨.backgroundFlush (runningEnv 36 true), hretain _, rfl⟩).tail
      ⟨.backgroundFlush (runningEnv 0 false), hroom _, rfl⟩)).1⟩

/-- A request is queued, and popped while level 0 has reached its stop trigger in bucket mode. It
is queued again with a second reference. -/
theorem stalled_request_leaks_reference : ∃ s : Scheduler ℕ, Relation.ReflTransGen (Step ⟨false, 1⟩)
        (opened (fun _ => 1) fun _ => none) s ∧
      s.refs .flushQueue 0 = 2 ∧ s.queuedRequests 0 = 1 ∧ s.servedRequests 0 = 0 ∧
      ¬ s.FlushRefsCounted := by
  refine ⟨_, (Relation.ReflTransGen.single
    ⟨.enqueuePendingFlush (runningEnv 36 false).imm (.single .manualFlush 0 7), rfl⟩).tail
    ⟨.backgroundFlush (runningEnv 36 false), rfl⟩, rfl, rfl, rfl, fun h => ?_⟩
  exact absurd (h 0) (by decide)

end Scheduler

end BucketLSM
