import BucketLSM.Bucket.Manager
import Mathlib

/-!
# Adjusting the buckets of a compaction

`InstallCompactionResults` first looks up the buckets of the input files and then adjusts
them in ascending order by index. A split or a merge moves the buckets behind it to other
indices.
-/

namespace BucketLSM.BucketManager

open List

/-- `compacted_buckets`: the indices of the buckets of the files' smallest keys. -/
def compactedBuckets (m : BucketManager) (smallestKeys : List Slice) : List ℕ :=
  (((smallestKeys.map m.findBucketInternal).filter (0 ≤ ·)).map Int.toNat).dedup.insertionSort
    (· ≤ ·)

variable (D : Type) [Double D]

/-- What `AdjustAfterCompaction` does with an index. -/
def decision (m : BucketManager) (idx : ℕ) : Adjustment :=
  if m.enableBucketAdjustment = some false then .keep
  else (m.buckets[idx]?).elim .keep (compactionAdjustment D m)

/-- For each bucket the buckets before the loop that it is made of, after an adjustment. -/
def trace (m : BucketManager) (origins : List (List ℕ)) (idx : ℕ) : Adjustment → List (List ℕ)
  | .split => origins.insertIdx (idx + 1) (origins.getD idx [])
  | .merge =>
    let left := m.mergeLeft idx
    (origins.set left (origins.getD left [] ++ origins.getD (left + 1) [])).eraseIdx (left + 1)
  | .keep => origins

/-- The loop of `InstallCompactionResults`, with what the bucket evaluated in each turn is
made of. -/
def evaluated : BucketManager → List (List ℕ) → List ℕ → List (Option (List ℕ))
  | _, _, [] => []
  | m, origins, idx :: indices =>
    origins[idx]? :: evaluated (m.adjustAfterCompaction D idx).2
      (m.trace origins idx (m.decision D idx)) indices

/-- For each bucket after the loop the buckets before it that it is made of. -/
def adjusted : BucketManager → List (List ℕ) → List ℕ → List (List ℕ)
  | _, origins, [] => origins
  | m, origins, idx :: indices => adjusted (m.adjustAfterCompaction D idx).2
      (m.trace origins idx (m.decision D idx)) indices

variable (m : BucketManager)

lemma adjustAfterCompaction_eq (idx : ℕ) :
    (m.adjustAfterCompaction D idx).2 = m.applyAdjustment idx (m.decision D idx) := by
  unfold adjustAfterCompaction decision
  split_ifs with h
  · rfl
  · omega
  · rw [Int.toNat_natCast]
    cases m.buckets[idx]? <;> rfl

/-- Before the loop each bucket is itself. -/
def itself (m : BucketManager) : List (List ℕ) := (List.range m.buckets.length).map fun i => [i]

lemma getElem?_itself (i : ℕ) : m.itself[i]? = if i < m.buckets.length then some [i] else none := by
  unfold itself
  split_ifs with h <;> simp [h]

/-- After a split or a merge no bucket behind it is at its index any more. -/
lemma trace_ne {idx j : ℕ} (hidx : idx < m.buckets.length) (hj : idx < j)
    {a : Adjustment} (ha : a ≠ .keep) : (m.trace m.itself idx a)[j]? ≠ some [j] := by
  cases a with
  | split =>
    rw [trace, getElem?_insertIdx, if_neg (by omega)]
    split_ifs with heq
    · simp [getD_eq_getElem?_getD, getElem?_itself, hidx, hj.ne]
    · simp
    · rw [getElem?_itself]
      split_ifs <;> simp
      omega
  | merge =>
    have hleft : m.mergeLeft idx ≤ idx := by
      unfold mergeLeft
      split_ifs <;> omega
    rw [trace, getElem?_eraseIdx, if_neg (by omega), getElem?_set_ne (by omega),
      getElem?_itself]
    split_ifs <;> simp
  | keep => exact absurd rfl ha

lemma mem_itself {i : ℕ} : [i] ∈ m.itself ↔ i < m.buckets.length := by
  simp [itself]

/-- An adjustment of one bucket leaves any other as it is, or merges it with that one. -/
lemma mem_trace {idx i : ℕ} (hidx : idx < m.buckets.length) (hi : i < m.buckets.length)
    (hne : i ≠ idx) (a : Adjustment) : [i] ∈ m.trace m.itself idx a ∨
      [i, idx] ∈ m.trace m.itself idx a ∨ [idx, i] ∈ m.trace m.itself idx a := by
  cases a with
  | split =>
    have hlength : idx + 1 ≤ m.itself.length := by simpa [itself] using hidx
    exact .inl ((mem_insertIdx hlength).2 (.inr (m.mem_itself.2 hi)))
  | merge =>
    have hleft : m.mergeLeft idx + 1 < m.buckets.length ∧
        (idx = m.mergeLeft idx ∨ idx = m.mergeLeft idx + 1) := by
      unfold mergeLeft
      split_ifs <;> omega
    rw [trace]
    generalize m.mergeLeft idx = left at hleft
    obtain ⟨hlt, hpair⟩ := hleft
    -- what stands at an index after the merge
    have hat : ∀ j, ((m.itself.set left (m.itself.getD left [] ++ m.itself.getD (left + 1) [])
        ).eraseIdx (left + 1))[j]? = if j < left then some [j] else if j = left then
          some [left, left + 1] else if j + 1 < m.buckets.length then some [j + 1] else none := by
      intro j
      have hlength : m.itself.length = m.buckets.length := by simp [itself]
      simp only [getElem?_eraseIdx, getElem?_set, getD_eq_getElem?_getD, getElem?_itself, hlength,
        if_pos hlt, if_pos (Nat.lt_of_succ_lt hlt)]
      grind
    rcases lt_trichotomy i left with hi' | rfl | hi'
    · exact .inl (mem_of_getElem? ((hat i).trans (if_pos hi')))
    · obtain rfl : idx = i + 1 := by omega
      exact .inr (.inl (mem_of_getElem? (i := i) (by rw [hat]; simp)))
    · by_cases hnext : i = left + 1
      · obtain rfl : idx = left := by omega
        subst hnext
        exact .inr (.inr (mem_of_getElem? (i := idx) (by rw [hat]; simp)))
      · refine .inl (mem_of_getElem? (i := i - 1) ?_)
        rw [hat, if_neg (by omega), if_neg (by omega), if_pos (by omega),
          Nat.sub_add_cancel (by omega)]
  | keep => exact .inl (m.mem_itself.2 hi)

/-- While nothing is adjusted the loop goes on from the same buckets, so what the last turn does
is all that is done. -/
lemma mem_adjusted {indices : List ℕ} (hlt : ∀ j ∈ indices, j < m.buckets.length)
    (hkeep : ∀ j ∈ indices.dropLast, m.decision D j = .keep) {i : ℕ} (hi : i < m.buckets.length)
    (hnot : i ∉ indices) : [i] ∈ adjusted D m m.itself indices ∨ ∃ j ∈ indices,
      [i, j] ∈ adjusted D m m.itself indices ∨ [j, i] ∈ adjusted D m m.itself indices := by
  induction indices with
  | nil => exact .inl (m.mem_itself.2 hi)
  | cons idx indices ih =>
    rw [adjusted]
    cases indices with
    | nil =>
      have hne : i ≠ idx := fun h => hnot (h ▸ mem_cons_self)
      exact (m.mem_trace (hlt idx mem_cons_self) hi hne _).imp_right fun h =>
        ⟨idx, mem_cons_self, h⟩
    | cons next indices =>
      have hidx : m.decision D idx = .keep := hkeep idx (by simp)
      rw [adjustAfterCompaction_eq, hidx]
      refine (ih (fun j hj => hlt j (mem_cons_of_mem _ hj)) (fun j hj => hkeep j ?_)
        fun h => hnot (mem_cons_of_mem _ h)).imp_right ?_
      · rw [dropLast_cons_cons]
        exact mem_cons_of_mem _ hj
      · rintro ⟨j, hj, h⟩
        exact ⟨j, mem_cons_of_mem _ hj, h⟩

lemma evaluated_iff (indices : List ℕ) (hsorted : indices.Pairwise (· < ·))
    (hlt : ∀ i ∈ indices, i < m.buckets.length) :
    evaluated D m m.itself indices = indices.map (fun i => some [i]) ↔
      ∀ i ∈ indices.dropLast, m.decision D i = .keep := by
  induction indices with
  | nil => simp [evaluated]
  | cons idx indices ih =>
    obtain ⟨hhead, htail⟩ := pairwise_cons.1 hsorted
    have hidx := hlt idx mem_cons_self
    rw [evaluated, getElem?_itself, if_pos hidx, map_cons, cons.injEq, adjustAfterCompaction_eq]
    by_cases hkeep : m.decision D idx = .keep
    · -- nothing moves, and the loop goes on from the same buckets
      rw [hkeep]
      simp only [trace, applyAdjustment, true_and]
      rw [ih htail fun i hi => hlt i (mem_cons_of_mem _ hi)]
      cases indices with
      | nil => simp
      | cons j indices => simp [hkeep]
    · cases indices with
      | nil => simp [evaluated]
      | cons j indices =>
        refine iff_of_false (fun h => ?_) (by simp [hkeep])
        rw [evaluated, map_cons, cons.injEq] at h
        exact m.trace_ne hidx (hhead j mem_cons_self) hkeep h.2.1

lemma lt_of_mem_compactedBuckets {m : BucketManager} {smallestKeys : List Slice} {i : ℕ}
    (h : i ∈ m.compactedBuckets smallestKeys) : i < m.buckets.length := by
  simp only [compactedBuckets, mem_insertionSort, mem_dedup, mem_map,
    mem_filter, decide_eq_true_eq] at h
  obtain ⟨_, ⟨⟨key, -, rfl⟩, hnonneg⟩, rfl⟩ := h
  unfold findBucketInternal at hnonneg ⊢
  split at hnonneg
  case h_1 i hfound =>
    simpa [ranges] using (findIdx?_eq_some_iff_findIdx_eq.1 hfound).1
  case h_2 => omega

lemma pairwise_compactedBuckets (smallestKeys : List Slice) :
    (m.compactedBuckets smallestKeys).Pairwise (· < ·) :=
  (pairwise_insertionSort _ _).imp₂ (fun _ _ => lt_of_le_of_ne)
    ((perm_insertionSort _ _).nodup_iff.2 (nodup_dedup _))

/-- The loop evaluates exactly the buckets it has looked up, each once, exactly when
`AdjustAfterCompaction` would keep all of them but the last as they are before the loop. Then every
other bucket is there after it, or is merged with one of them. -/
theorem evaluated_compactedBuckets_iff (m : BucketManager) (smallestKeys : List Slice) :
    (evaluated D m m.itself (m.compactedBuckets smallestKeys) =
        (m.compactedBuckets smallestKeys).map (fun i => some [i]) ↔
      ∀ i ∈ (m.compactedBuckets smallestKeys).dropLast, m.decision D i = .keep) ∧
    ((∀ i ∈ (m.compactedBuckets smallestKeys).dropLast, m.decision D i = .keep) →
      ∀ i < m.buckets.length, i ∉ m.compactedBuckets smallestKeys →
        [i] ∈ adjusted D m m.itself (m.compactedBuckets smallestKeys) ∨
        ∃ j ∈ m.compactedBuckets smallestKeys,
          [i, j] ∈ adjusted D m m.itself (m.compactedBuckets smallestKeys) ∨
          [j, i] ∈ adjusted D m m.itself (m.compactedBuckets smallestKeys)) :=
  ⟨evaluated_iff D m _ (m.pairwise_compactedBuckets _) fun _ => lt_of_mem_compactedBuckets,
    fun hkeep _ hi hnot => m.mem_adjusted D (fun _ => lt_of_mem_compactedBuckets) hkeep hi hnot⟩

/-- Two buckets after a flush that has put nine tenths of the bytes into the first. -/
def unbalanced : BucketManager :=
  (⟨[.ofRange [] [100], .ofRange [100] []], 2, true, 0, 0, some true⟩ :
    BucketManager).onFlushCompleted 0 [⟨1, 9, 90, [50], [], [100]⟩, ⟨1, 1, 10, [150], [100], []⟩]

/-- The first bucket is split, and its right half is evaluated in place of the second. -/
theorem second_bucket_not_evaluated : ¬ ∀ (m : BucketManager) (smallestKeys : List Slice),
      evaluated ℚ m m.itself (m.compactedBuckets smallestKeys) =
        (m.compactedBuckets smallestKeys).map (fun i => some [i]) := by
  intro h
  have hindices : unbalanced.compactedBuckets [[50], [150]] = [0, 1] := by decide +kernel
  have h := h unbalanced [[50], [150]]
  rw [hindices] at h
  exact absurd h (by decide +kernel)

end BucketLSM.BucketManager
