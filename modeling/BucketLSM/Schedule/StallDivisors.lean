import Mathlib

/-!
# The divisors of the stall checks

Bucket mode divides by options: `ComputeCompactionScore` by the hard limit on pending
compaction bytes, `BackgroundFlush` and `WriteBucketLevel0Table` by the stop trigger of
level 0, and the first bucket flush by the number of buckets to make. Opening a column family
sanitizes some of these options, `SetOptions` none.
-/

namespace BucketLSM

/-- The column family options behind the divisors. -/
structure StallOptions where
  level0FileNumCompactionTrigger : ℤ
  level0SlowdownWritesTrigger : ℤ
  level0StopWritesTrigger : ℤ
  hardPendingCompactionBytesLimit : ℕ

/-- The divisors among the options a call of `SetOptions` names, with their new values. -/
structure OptionsMap where
  level0StopWritesTrigger : Option ℤ := none
  hardPendingCompactionBytesLimit : Option ℕ := none

namespace StallOptions

/-- `SanitizeCfOptions`, as far as it goes for these options. -/
def sanitizeCfOptions (fifo : Bool) (src : StallOptions) : StallOptions :=
  let slowdown := if fifo then 2 ^ 31 - 1 else src.level0SlowdownWritesTrigger
  let stop := if fifo then 2 ^ 31 - 1 else src.level0StopWritesTrigger
  let trigger :=
    if src.level0FileNumCompactionTrigger = 0 then 1 else src.level0FileNumCompactionTrigger
  if stop < slowdown ∨ slowdown < trigger then
    let slowdown := if slowdown < trigger then trigger else slowdown
    ⟨trigger, slowdown, if stop < slowdown then slowdown else stop,
      src.hardPendingCompactionBytesLimit⟩
  else ⟨trigger, slowdown, stop, src.hardPendingCompactionBytesLimit⟩

variable (o : StallOptions)

/-- `ColumnFamilyData::SetOptions`, which validates the options but does not sanitize them;
`ValidateOptions` looks at none of these. -/
def setOptions (map : OptionsMap) : StallOptions :=
  { o with
    level0StopWritesTrigger := map.level0StopWritesTrigger.getD o.level0StopWritesTrigger
    hardPendingCompactionBytesLimit :=
      map.hardPendingCompactionBytesLimit.getD o.hardPendingCompactionBytesLimit }

/-- `pendingstall` of `ComputeCompactionScore`, `none` for a division by zero. -/
def pendingStall (estimatedCompactionNeededBytes : ℕ) : Option ℕ :=
  if o.hardPendingCompactionBytesLimit = 0 then none
  else some (estimatedCompactionNeededBytes / o.hardPendingCompactionBytesLimit % 2 ^ 32)

/-- `l0stall` of `BackgroundFlush` and `WriteBucketLevel0Table`. -/
def l0Stall (l0DelayTriggerCount : ℤ) : Option ℤ :=
  if o.level0StopWritesTrigger = 0 then none
  else some (l0DelayTriggerCount.tdiv o.level0StopWritesTrigger % 2 ^ 32)

/-- `entries_per_bucket` of `WriteBucketLevel0Table`; the `int` is converted to `uint64_t`. -/
def entriesPerBucket (initialSplitCount : ℤ) (totalNumInputEntries : ℕ) : Option ℕ :=
  if initialSplitCount = 0 then none
  else some (totalNumInputEntries / (initialSplitCount % 2 ^ 64).toNat)

/-- No division by zero, whatever the state of the tree and the memtables. -/
def Divides (initialSplitCount : ℤ) : Prop :=
  ∀ (bytes : ℕ) (count : ℤ) (entries : ℕ), (o.pendingStall bytes).isSome ∧
    (o.l0Stall count).isSome ∧ (entriesPerBucket initialSplitCount entries).isSome

/-- The options after a column family is opened and some calls of `SetOptions`. -/
def inEffect (fifo : Bool) (src : StallOptions) (maps : List OptionsMap) : StallOptions :=
  maps.foldl setOptions (sanitizeCfOptions fifo src)

/-- The last value an option was set to, or what it was before. -/
def lastSet {α : Type} (init : α) (values : List (Option α)) : α :=
  values.reduceOption.getLastD init

lemma foldl_setOptions {α : Type} (field : StallOptions → α) (set : OptionsMap → Option α)
    (hset : ∀ o map, field (setOptions o map) = (set map).getD (field o)) (o : StallOptions)
    (maps : List OptionsMap) :
    field (maps.foldl setOptions o) = lastSet (field o) (maps.map set) := by
  induction maps generalizing o with
  | nil => rfl
  | cons map maps ih =>
    rw [List.foldl_cons, ih, hset, List.map_cons]
    unfold lastSet
    cases set map with
    | none => rfl
    | some value => rw [List.reduceOption_cons_of_some, List.getLastD_cons]; rfl

/-- The stop trigger of an opened column family. -/
def openedStop (fifo : Bool) (src : StallOptions) : ℤ :=
  max (if fifo then 2 ^ 31 - 1 else max src.level0StopWritesTrigger src.level0SlowdownWritesTrigger)
    (if src.level0FileNumCompactionTrigger = 0 then 1 else src.level0FileNumCompactionTrigger)

lemma sanitizeCfOptions_spec (fifo : Bool) (src : StallOptions) :
    (sanitizeCfOptions fifo src).level0StopWritesTrigger = openedStop fifo src ∧
      (sanitizeCfOptions fifo src).hardPendingCompactionBytesLimit =
        src.hardPendingCompactionBytesLimit := by
  unfold sanitizeCfOptions openedStop
  grind

/-- The divisors are not zero exactly when the number of buckets to make is not, and neither
is the last value of the hard limit and of the stop trigger. -/
theorem divides_inEffect_iff (fifo : Bool) (src : StallOptions) (maps : List OptionsMap)
    (initialSplitCount : ℤ) : (inEffect fifo src maps).Divides initialSplitCount ↔
      initialSplitCount ≠ 0 ∧ lastSet src.hardPendingCompactionBytesLimit
        (maps.map (·.hardPendingCompactionBytesLimit)) ≠ 0 ∧
      lastSet (openedStop fifo src) (maps.map (·.level0StopWritesTrigger)) ≠ 0 := by
  obtain ⟨hstop, hhard⟩ := sanitizeCfOptions_spec fifo src
  rw [← hstop, ← hhard, ← foldl_setOptions (·.hardPendingCompactionBytesLimit) _ (fun _ _ => rfl),
    ← foldl_setOptions (·.level0StopWritesTrigger) _ (fun _ _ => rfl)]
  have hsome {α : Type} (p : Prop) [Decidable p] (x : α) :
      (if p then none else some x).isSome ↔ ¬ p := by
    split_ifs with hp <;> simp [hp]
  constructor
  · intro h
    obtain ⟨hbytes, hcount, hentries⟩ := h 0 0 0
    exact ⟨(hsome _ _).1 hentries, (hsome _ _).1 hbytes, (hsome _ _).1 hcount⟩
  · rintro ⟨hentries, hbytes, hcount⟩ bytes count entries
    exact ⟨(hsome _ _).2 hbytes, (hsome _ _).2 hcount, (hsome _ _).2 hentries⟩

/-- The options of `PrepareForBulkLoad` disable the hard limit. -/
theorem not_divides_prepareForBulkLoad :
    ¬ ∀ (fifo : Bool) (src : StallOptions) (maps : List OptionsMap) (initialSplitCount : ℤ),
      (inEffect fifo src maps).Divides initialSplitCount :=
  fun h => absurd (h false ⟨2 ^ 30, 2 ^ 30, 2 ^ 30, 0⟩ [] 4 0 0 0).1 (by decide)

end StallOptions

end BucketLSM
