import BucketLSM.Compaction.Registration

/-!
# The ranges that compactions write

Compactions that run at the same time must not write the same keys into one level. A compaction
writes into its output level and, if it splits keys between the last two levels, into the level
above it. The picker compares both ranges of a new compaction with both ranges of each registered
one.
-/

namespace BucketLSM

open List LevelCompactionBuilder

variable {K D : Type} [LinearOrder K] {c : Compaction K}

/-- The levels a compaction writes into, with the user keys it may write there. -/
def Compaction.writes (c : Compaction K) : List (ℕ × (K × K)) :=
  c.userKeys.toList.map (Prod.mk c.outputLevel) ++
    c.proximalLevel.toList.flatMap fun p => c.proximalUserKeys.toList.map (Prod.mk p)

namespace PickerState

variable [Double D]

/-- The compactions write into different levels, or different keys. The files of level 0 may
overlap. -/
def WritesApart (c c' : Compaction K) : Prop :=
  ∀ w ∈ c.writes, ∀ w' ∈ c'.writes, w.1 = w'.1 → w.1 ≠ 0 → w.2.2 < w'.2.1 ∨ w'.2.2 < w.2.1

/-- A pick, the end of a compaction, or any new version. -/
inductive OwnStep (s : PickerState K D) : PickerState K D → Prop
  | pick (o : PickOptions D) (scores : List (ℕ × D)) (env : MarkingEnv)
      (hmode : o.iopts.useNewFlush ≠ 0) : OwnStep s (s.pick o scores env)
  | release (c : Compaction K) (ok : Bool) : OwnStep s (s.release c ok)
  | install (vs : VersionStorageInfo K D) : OwnStep s { s with vstorage := vs }

/-- A picked compaction is the one its inputs, output level and reason make. -/
lemma eq_new_of_pick {ctx : PickContext K D} (h : (pickCompaction ctx).1 = some c) :
    c = Compaction.new ctx.mopts ctx.iopts c.inputs c.outputLevel c.reason := by
  unfold pickCompaction at h
  dsimp only at h
  split_ifs at h
  split at h
  · cases h
  · split at h
    · cases h
    · obtain rfl := Option.some.inj h
      rfl

omit [Double D] in
/-- Where the range check of a level finds nothing, neither range of a running compaction that
could be written there is met. -/
lemma apart_of_rangeOverlap {running : List (Compaction K)} {c' : Compaction K} {r : K × K}
    {level : ℕ} (h : rangeOverlapWithCompaction running r.1 r.2 level = false)
    (hc' : c' ∈ running) : ∀ w' ∈ c'.writes, level = w'.1 → r.2 < w'.2.1 ∨ w'.2.2 < r.1 := by
  intro w' hw' hlevel
  have hnone := any_eq_false.1 h c' hc'
  simp only [Compaction.writes, mem_append, mem_map, mem_flatMap, Option.mem_toList] at hw'
  by_contra hmeet
  rw [not_or, not_lt, not_lt] at hmeet
  rcases hw' with ⟨r', hr', rfl⟩ | ⟨p, hp, r', hr', rfl⟩
  · exact hnone (by simp [hlevel, hr', meetsRange, hmeet])
  · exact hnone (by simp [hp, hr', meetsRange, hmeet])

omit [Double D] in
/-- A compaction that splits keys is into the last level. -/
lemma last_of_proximal {mopts : MutableCFOptions D} {iopts : ImmutableOptions D}
    {startLevel outputLevel p : ℕ}
    (h : evaluateProximalLevel mopts iopts startLevel outputLevel = some p) :
    outputLevel = iopts.numLevels - 1 ∧ outputLevel ≠ 0 := by
  unfold evaluateProximalLevel at h
  split_ifs at h
  omega

/-- Inputs without a range have none on any level. -/
lemma getRange_eq_none_of_foldl {inputs : List (CompactionInputFiles K)}
    {r : Option (InternalKey K × InternalKey K)}
    (h : inputs.foldl (widenRange none) r = none) :
    r = none ∧ ∀ i ∈ inputs, getRange i = none := by
  induction inputs generalizing r with
  | nil => exact ⟨h, by simp⟩
  | cons i inputs ih =>
    obtain ⟨hwiden, hrest⟩ := ih h
    unfold widenRange at hwiden
    rw [if_neg (by simp)] at hwiden
    split at hwiden
    · next hi => exact ⟨hwiden, forall_mem_cons.2 ⟨hi, hrest⟩⟩
    · cases hwiden

/-- A range of some of the levels lies in a range of all of them. -/
lemma exists_getRangeOfLevels {inputs : List (CompactionInputFiles K)} {level : Option ℕ}
    {r : InternalKey K × InternalKey K} (h : getRangeOfLevels level inputs = some r) :
    ∃ r', getRangeOfLevels none inputs = some r' := by
  refine Option.ne_none_iff_exists'.1 fun hnone => ?_
  have hall := (getRange_eq_none_of_foldl hnone).2
  have hfold : ∀ inputs : List (CompactionInputFiles K), (∀ i ∈ inputs, getRange i = none) →
      inputs.foldl (widenRange level) none = none := by
    intro inputs hall
    induction inputs with
    | nil => rfl
    | cons i inputs ih =>
      obtain ⟨hi, hall⟩ := forall_mem_cons.1 hall
      have hwiden : widenRange level none i = none := by simp [widenRange, hi]
      rw [foldl_cons, hwiden]
      exact ih hall
  rw [getRangeOfLevels, hfold inputs hall] at h
  cases h

/-- A new compaction writes apart from all registered ones. -/
lemma writesApart_of_pick {ctx : PickContext K D} (hmode : ctx.iopts.useNewFlush ≠ 0)
    (h : (pickCompaction ctx).1 = some c) : ∀ c' ∈ ctx.running, WritesApart c c' := by
  intro c' hc' w hw w' hw' hlevel hne
  have hout := (pickedCompaction hmode h).no_conflict
  have hnew := eq_new_of_pick h
  have hproximal : c.proximalLevel =
      evaluateProximalLevel ctx.mopts ctx.iopts c.startLevel c.outputLevel := by
    rw [hnew]
    rfl
  rw [conflicts, ← hproximal] at hout
  simp only [Compaction.writes, mem_append, mem_map, mem_flatMap, Option.mem_toList] at hw
  rcases hw with ⟨r, hr, rfl⟩ | ⟨p, hp, r, hr, rfl⟩
  · -- the output level: the range of all inputs is checked there
    have hkeys : c.userKeys = (getRangeOfLevels none c.inputs).map fun r =>
        (r.1.userKey, r.2.userKey) := by
      rw [hnew]
      rfl
    obtain ⟨r₀, hr₀, rfl⟩ := Option.map_eq_some_iff.1 (hkeys ▸ hr)
    have hconflict := hout hne
    simp only [filesRangeOverlapWithCompaction, hr₀, Bool.or_eq_false_iff] at hconflict
    exact apart_of_rangeOverlap hconflict.2 hc' w' hw' hlevel
  · -- the level above the last one: the range of the other inputs is checked there
    obtain ⟨hlast, hpos⟩ := last_of_proximal (hproximal ▸ hp)
    have hkeys : c.proximalUserKeys = (getRangeOfLevels (some c.outputLevel) c.inputs).map fun r =>
        (r.1.userKey, r.2.userKey) := by
      have hsome : c.proximalUserKeys = if c.proximalLevel.isSome then
          (getRangeOfLevels (some (ctx.iopts.numLevels - 1)) c.inputs).map fun r =>
            (r.1.userKey, r.2.userKey) else none := by
        rw [hnew]
        rfl
      rw [hsome, hp, hlast]
      rfl
    obtain ⟨r₁, hr₁, rfl⟩ := Option.map_eq_some_iff.1 (hkeys ▸ hr)
    obtain ⟨r₀, hr₀⟩ := exists_getRangeOfLevels hr₁
    have hconflict := hout hpos
    simp only [filesRangeOverlapWithCompaction, hr₀, hp, hr₁, Bool.or_eq_false_iff] at hconflict
    exact apart_of_rangeOverlap hconflict.1 hc' w' hw' hlevel

lemma compactionsInProgress_pick (s : PickerState K D) (o : PickOptions D)
    (scores : List (ℕ × D)) (env : MarkingEnv) : (s.pick o scores env).compactionsInProgress =
      (pickCompaction (s.context o)).1.toList ++ s.compactionsInProgress := by
  unfold PickerState.pick
  rcases pickCompaction (s.context o) with ⟨_ | c, index⟩ <;> rfl

/-- **Concurrent compactions.** Along every run that starts without compactions, trivial moves
included, no two registered compactions write overlapping ranges into one level, neither as output
level nor as the level above it. -/
theorem writesApart_of_run {s s' : PickerState K D} (hstart : s.compactionsInProgress = [])
    (hrun : Relation.ReflTransGen OwnStep s s') :
    s'.compactionsInProgress.Pairwise WritesApart := by
  induction hrun with
  | refl => simp [hstart]
  | @tail s₁ s₂ _ hstep ih =>
    cases hstep with
    | pick o scores env hmode =>
      rw [compactionsInProgress_pick]
      cases hpick : (pickCompaction (s₁.context o)).1 with
      | none => exact ih
      | some c => exact pairwise_cons.2 ⟨writesApart_of_pick hmode hpick, ih⟩
    | release c ok => exact ih.sublist erase_sublist
    | install vs => exact ih

/-- Two level-0 files of different keys, both expired, over a file of a third key. -/
def expiredState : PickerState Slice ℚ where
  vstorage :=
    { level0 := ⟨[valueFile 3 2 [99] 2, valueFile 2 1 [97] 1], by decide, by decide⟩
      levels := [[valueFile 1 1 [122] 0]]
      baseLevel := 1
      compactionScore := level0Scores [valueFile 3 2 [99] 2, valueFile 2 1 [97] 1]
      filesByCompactionPri := fun _ => []
      nextCompactionIndex := fun _ => 0
      maxBytesForLevel := fun _ => 0
      marked := ⟨[], [], [(0, valueFile 3 2 [99] 2), (0, valueFile 2 1 [97] 1)], [], []⟩
      numbers_nodup := by decide
      marked_active := by decide }
  compactionsInProgress := []

/-- The same files while the first one is compacted. -/
def stillExpired : VersionStorageInfo Slice ℚ where
  level0 := ⟨[{ valueFile 3 2 [99] 2 with beingCompacted := true }, valueFile 2 1 [97] 1],
    by decide, by decide⟩
  levels := [[valueFile 1 1 [122] 0]]
  baseLevel := 1
  compactionScore := level0Scores [valueFile 3 2 [99] 2, valueFile 2 1 [97] 1]
  filesByCompactionPri := fun _ => []
  nextCompactionIndex := fun _ => 0
  maxBytesForLevel := fun _ => 0
  marked := ⟨[], [], [(0, valueFile 2 1 [97] 1)], [], []⟩
  numbers_nodup := by decide
  marked_active := by decide

/-- Both files are on their way into level 1. -/
theorem writesApart_of_run_two :
    let s₁ := expiredState.pick periodicOptions expiredState.vstorage.compactionScore idleEnv
    let s₂ := PickerState.pick ⟨stillExpired, s₁.2⟩ periodicOptions stillExpired.compactionScore
      idleEnv
    s₂.compactionsInProgress.map Compaction.writes =
      [[(1, ([97], [97]))], [(1, ([99], [99]))]] ∧
      s₂.compactionsInProgress.Pairwise WritesApart :=
  ⟨by decide +kernel, writesApart_of_run rfl (.tail (.tail (.tail .refl
    (.pick periodicOptions _ idleEnv (by decide))) (.install stillExpired))
    (.pick periodicOptions _ idleEnv (by decide)))⟩

end PickerState

end BucketLSM
