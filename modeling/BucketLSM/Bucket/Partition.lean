import BucketLSM.Bucket.Midpoint
import Mathlib.Logic.Relation

/-!
# The buckets partition the key space

A bucket flush routes every entry by its user key, so the ranges of the buckets have to
cover the key space without gap or overlap. This holds after the first flush unless one of
the split points is the empty key, which the manager reads as an infinity, and it is kept
by every operation that does not split an indivisible bucket.
-/

namespace BucketLSM

open List Option BucketManager

/-! ## Tilings of the key space -/

/-- The range at index `i` contains the key. -/
def ContainsAt (ranges : List (Slice × Slice)) (key : Slice) (i : ℕ) : Prop :=
  ∃ r ∈ ranges[i]?, rangeContains r key

/-- The ranges partition the key space: they run from `-∞` to `+∞`, each ends where the
next one starts, and every key lies in exactly one of them. -/
structure Partitions (ranges : List (Slice × Slice)) : Prop where
  first : ranges.head?.map Prod.fst = some []
  last : ranges.getLast?.map Prod.snd = some []
  adjacent : ∀ i, ∀ r ∈ ranges[i]?, ∀ r' ∈ ranges[i + 1]?, r.2 = r'.1
  cover : ∀ key, ∃! i, ContainsAt ranges key i

/-- The inductive form of a partition of `[lo, +∞)`: every inner boundary is a real key and
the boundaries do not decrease. -/
inductive Tiled : Slice → List (Slice × Slice) → Prop
  | last (lo : Slice) : Tiled lo [(lo, [])]
  | cons {lo hi : Slice} {rest : List (Slice × Slice)} :
      hi ≠ [] → lo = [] ∨ lo ≤ hi → Tiled hi rest → Tiled lo ((lo, hi) :: rest)

lemma rangeContains_iff (r : Slice × Slice) (key : Slice) :
    rangeContains r key ↔ (r.1 = [] ∨ r.1 ≤ key) ∧ (r.2 = [] ∨ key < r.2) := by
  simp [rangeContains]

@[simp]
lemma containsAt_cons_zero (r : Slice × Slice) (rs : List (Slice × Slice)) (key : Slice) :
    ContainsAt (r :: rs) key 0 ↔ rangeContains r key := by
  simp [ContainsAt]

@[simp]
lemma containsAt_cons_succ (r : Slice × Slice) (rs : List (Slice × Slice)) (key : Slice)
    (i : ℕ) : ContainsAt (r :: rs) key (i + 1) ↔ ContainsAt rs key i := by
  simp [ContainsAt]

@[simp]
lemma not_containsAt_nil (key : Slice) (i : ℕ) : ¬ ContainsAt [] key i := by
  simp [ContainsAt]

namespace Tiled

variable {lo key p : Slice} {rs : List (Slice × Slice)}

section

variable (h : Tiled lo rs)

include h

/-- Nothing below the start of a tiling lies in it. -/
lemma not_containsAt_of_lt (hlo : lo ≠ []) (hkey : key < lo) (i : ℕ) : ¬ ContainsAt rs key i := by
  induction h generalizing i with
  | last lo =>
    cases i with
    | zero => simp [rangeContains_iff, hlo, hkey]
    | succ i => simp
  | @cons lo hi rest hhi hle _ ih =>
    cases i with
    | zero => simp [rangeContains_iff, hlo, hkey]
    | succ i =>
      rw [containsAt_cons_succ]
      exact ih hhi (lt_of_lt_of_le hkey (hle.resolve_left hlo)) i

/-- Every key from the start of a tiling on lies in exactly one of its ranges. -/
lemma existsUnique_containsAt (hkey : lo = [] ∨ lo ≤ key) : ∃! i, ContainsAt rs key i := by
  induction h with
  | last lo =>
    refine ⟨0, by simp [rangeContains_iff, hkey], ?_⟩
    rintro (_ | i) hi
    · rfl
    · simp at hi
  | @cons lo hi rest hhi hle ht ih =>
    by_cases hlt : key < hi
    · refine ⟨0, by simp [rangeContains_iff, hkey, hlt], ?_⟩
      rintro (_ | i) hi'
      · rfl
      · exact absurd ((containsAt_cons_succ ..).1 hi') (ht.not_containsAt_of_lt hhi hlt i)
    · obtain ⟨i, hi', huniq⟩ := ih (.inr (not_lt.1 hlt))
      refine ⟨i + 1, (containsAt_cons_succ ..).2 hi', ?_⟩
      rintro (_ | j) hj
      · simp [rangeContains_iff, hhi, hlt] at hj
      · rw [huniq j ((containsAt_cons_succ ..).1 hj)]

lemma head?_fst : rs.head?.map Prod.fst = some lo := by
  cases h <;> rfl

lemma getLast?_snd : rs.getLast?.map Prod.snd = some [] := by
  induction h with
  | last lo => rfl
  | cons _ _ ht ih =>
    cases ht with
    | last => rfl
    | cons => simpa using ih

lemma adjacent (i : ℕ) : ∀ r ∈ rs[i]?, ∀ r' ∈ rs[i + 1]?, r.2 = r'.1 := by
  induction h generalizing i with
  | last lo => simp
  | cons _ _ ht ih =>
    cases i with
    | zero =>
      intro r hr r' hr'
      have hhead := ht.head?_fst
      simp only [head?_eq_getElem?, getElem?_cons_succ, zero_add] at hhead hr'
      simp only [mem_def.1 hr', map_some, some.injEq] at hhead
      simp only [getElem?_cons_zero, mem_some_iff] at hr
      rw [← hr, hhead]
    | succ i => simpa using ih i

end

lemma partitions (h : Tiled [] rs) : Partitions rs :=
  ⟨h.head?_fst, h.getLast?_snd, h.adjacent, fun _ => h.existsUnique_containsAt (.inl rfl)⟩

variable {a b : Slice} {i : ℕ}

section

variable (h : Tiled lo rs) (hget : rs[i]? = some (a, b))

include h hget

lemma split (hp : p ≠ []) (hap : a = [] ∨ a ≤ p)
    (hpb : b = [] ∨ p ≤ b) : Tiled lo ((rs.set i (a, p)).insertIdx (i + 1) (p, b)) := by
  induction h generalizing i with
  | last lo =>
    cases i with
    | zero =>
      obtain ⟨rfl, rfl⟩ : lo = a ∧ [] = b := by simpa using hget
      exact cons hp hap (last p)
    | succ i => simp at hget
  | @cons lo hi rest hhi hle ht ih =>
    cases i with
    | zero =>
      obtain ⟨rfl, rfl⟩ : lo = a ∧ hi = b := by simpa using hget
      exact cons hp hap (cons hhi (.inr (hpb.resolve_left hhi)) ht)
    | succ i => exact cons hhi hle (ih (by simpa using hget))

/-- Splitting a range at a key past its end leaves the end in two ranges. -/
lemma split_overlap (hb : b ≠ []) (hbp : b < p) :
    ∃ j, j ≠ i ∧ ContainsAt ((rs.set i (a, p)).insertIdx (i + 1) (p, b)) b i ∧
      ContainsAt ((rs.set i (a, p)).insertIdx (i + 1) (p, b)) b j := by
  induction h generalizing i with
  | last lo =>
    cases i with
    | zero => simp [Ne.symm hb] at hget
    | succ i => simp at hget
  | @cons lo hi rest hhi hle ht ih =>
    cases i with
    | zero =>
      obtain ⟨rfl, rfl⟩ : lo = a ∧ hi = b := by simpa using hget
      obtain ⟨j, hj, -⟩ : ∃! j, ContainsAt rest hi j :=
        ht.existsUnique_containsAt (.inr le_rfl)
      refine ⟨j + 2, by omega, ?_, ?_⟩
      · simp [rangeContains_iff, hle, hbp]
      · simpa using hj
    | succ i =>
      obtain ⟨j, hne, hi', hj⟩ := ih (by simpa using hget)
      exact ⟨j + 1, by omega, by simpa using hi', by simpa using hj⟩

lemma merge {c d : Slice}
    (hget' : rs[i + 1]? = some (c, d)) : Tiled lo ((rs.set i (a, d)).eraseIdx (i + 1)) := by
  induction h generalizing i with
  | last lo => simp at hget'
  | @cons lo hi rest hhi hle ht ih =>
    cases i with
    | zero =>
      obtain ⟨rfl, rfl⟩ : lo = a ∧ hi = b := by simpa using hget
      cases ht with
      | last =>
        obtain ⟨rfl, rfl⟩ : hi = c ∧ [] = d := by simpa using hget'
        exact last lo
      | cons hhi' hle' ht' =>
        obtain ⟨rfl, rfl⟩ : hi = c ∧ _ = d := by simpa using hget'
        exact cons hhi' (hle.imp_right fun h => h.trans (hle'.resolve_left hhi)) ht'
    | succ i => exact cons hhi hle (ih (by simpa using hget) (by simpa using hget'))

end

end Tiled

/-! ## Split points within the bucket -/

/-- The median of the recorded flush medians lies strictly inside the bucket. -/
def Bucket.UsableMedian (b : Bucket) : Prop :=
  computeSplitPoint b ≠ [] ∧ (b.minKey = [] ∨ b.minKey < computeSplitPoint b) ∧
    (b.maxKey = [] ∨ computeSplitPoint b < b.maxKey)

/-- A bucket that `SplitBucket` divides correctly: its flush medians point inside it, or
its range is divisible. -/
def Bucket.Splittable (b : Bucket) : Prop :=
  b.UsableMedian ∨ Divisible b.minKey b.maxKey

instance (b : Bucket) : Decidable b.UsableMedian := by
  unfold Bucket.UsableMedian
  infer_instance

instance (b : Bucket) : Decidable b.Splittable := by
  unfold Bucket.Splittable
  infer_instance

variable {b : Bucket}

lemma splitPoint_of_usableMedian (h : b.UsableMedian) : splitPoint b = computeSplitPoint b := by
  obtain ⟨hne, hmin, hmax⟩ := h
  have hlo : ¬ (b.minKey ≠ [] ∧ computeSplitPoint b ≤ b.minKey) := fun ⟨h, hle⟩ =>
    absurd (hmin.resolve_left h) (not_lt.2 hle)
  have hhi : ¬ (b.maxKey ≠ [] ∧ b.maxKey ≤ computeSplitPoint b) := fun ⟨h, hle⟩ =>
    absurd (hmax.resolve_left h) (not_lt.2 hle)
  simp only [splitPoint, hne, if_false, Bool.and_eq_true, decide_eq_true_eq, hlo, hhi]

lemma splitPoint_of_not_usableMedian (h : ¬ b.UsableMedian) :
    splitPoint b = computeMidpointKey b.minKey b.maxKey := by
  have h' : computeSplitPoint b = [] ∨ (b.minKey ≠ [] ∧ computeSplitPoint b ≤ b.minKey) ∨
      (b.maxKey ≠ [] ∧ b.maxKey ≤ computeSplitPoint b) := by
    by_contra hc
    push Not at hc
    exact h ⟨hc.1, or_iff_not_imp_left.2 hc.2.1, or_iff_not_imp_left.2 hc.2.2⟩
  simp only [splitPoint, Bool.and_eq_true, decide_eq_true_eq]
  split_ifs <;> first | rfl | tauto

lemma splitPoint_ne_nil (b : Bucket) : splitPoint b ≠ [] := by
  by_cases h : b.UsableMedian
  · rw [splitPoint_of_usableMedian h]
    exact h.1
  · rw [splitPoint_of_not_usableMedian h]
    exact computeMidpointKey_ne_nil _ _

/-- The split point never lies below the bucket. -/
lemma minKey_le_splitPoint (h : b.minKey = [] ∨ b.maxKey = [] ∨ b.minKey ≤ b.maxKey) :
    b.minKey = [] ∨ b.minKey ≤ splitPoint b := by
  by_cases hmin : b.minKey = []
  · exact .inl hmin
  · refine .inr ?_
    by_cases hu : b.UsableMedian
    · rw [splitPoint_of_usableMedian hu]
      exact (hu.2.1.resolve_left hmin).le
    · rw [splitPoint_of_not_usableMedian hu]
      exact (lt_computeMidpointKey hmin (h.resolve_left hmin)).le

/-- The split point lies within the bucket exactly when the bucket is splittable. -/
lemma splitPoint_le_maxKey_iff (hmax : b.maxKey ≠ []) (h : b.minKey = [] ∨ b.minKey ≤ b.maxKey) :
    splitPoint b ≤ b.maxKey ↔ b.Splittable := by
  by_cases hu : b.UsableMedian
  · have hlt := hu.2.2.resolve_left hmax
    rw [splitPoint_of_usableMedian hu]
    exact ⟨fun _ => .inl hu, fun _ => hlt.le⟩
  · rw [splitPoint_of_not_usableMedian hu, computeMidpointKey_le_iff hmax h]
    simp [Bucket.Splittable, hu]

/-- A bucket that reaches to `+∞` is always splittable. -/
lemma splittable_of_maxKey_eq_nil (h : b.maxKey = []) : b.Splittable := by
  refine .inr ?_
  unfold Divisible
  split_ifs with hmin
  · simp [h]
  · simp [h, Ne.symm hmin]

/-! ## What the operations do to the ranges -/

namespace BucketManager

variable (m : BucketManager)

lemma range_addFlushEvent (b : Bucket) (id files entries bytes : UInt64) (key : Slice) :
    (b.addFlushEvent id files entries bytes key).range = b.range := rfl

lemma range_removeFlushEvent (b : Bucket) (id : UInt64) :
    (b.removeFlushEvent id).range = b.range := by
  unfold Bucket.removeFlushEvent
  split <;> rfl

@[simp]
lemma length_accumulate (acc : List AccumulatedStats) (r : BucketFlushResult) :
    (m.accumulate acc r).length = acc.length := by
  unfold accumulate
  dsimp only
  generalize m.findBucketsInRangeInternal r.minKey r.maxKey = idxs
  generalize UInt64.ofNat idxs.length = n
  induction idxs generalizing acc with
  | nil => rfl
  | cons i idxs ih => rw [foldl_cons, ih, length_modify]

lemma length_foldl_accumulate (acc : List AccumulatedStats) (rs : List BucketFlushResult) :
    (rs.foldl m.accumulate acc).length = acc.length := by
  induction rs generalizing acc with
  | nil => rfl
  | cons r rs ih => rw [foldl_cons, ih, length_accumulate]

/-- Recording an event in every bucket leaves the ranges alone. -/
private lemma map_range_zipWith {α : Type} (f : Bucket → α → Bucket)
    (hf : ∀ b x, (f b x).range = b.range) (bs : List Bucket) (xs : List α)
    (h : xs.length = bs.length) : (List.zipWith f bs xs).map Bucket.range = bs.map Bucket.range := by
  induction bs generalizing xs with
  | nil => simp
  | cons b bs ih =>
    cases xs with
    | nil => simp at h
    | cons x xs => simp [hf, ih xs (by simpa using h)]

lemma map_range_recordFlush (id epoch : UInt64) (rs : List BucketFlushResult) :
    (m.recordFlush id epoch rs).map Bucket.range = m.ranges := by
  unfold recordFlush
  split_ifs with h
  · exact map_range_zipWith _ (fun b r => range_addFlushEvent b ..) _ _ h.2
  · exact map_range_zipWith _ (fun b s => range_addFlushEvent b ..) _ _
      (by simp [length_foldl_accumulate])

@[simp]
lemma ranges_onFlushCompleted (epoch : UInt64) (rs : List BucketFlushResult) :
    (m.onFlushCompleted epoch rs).ranges = m.ranges := by
  unfold onFlushCompleted
  split_ifs with h
  · dsimp only [ranges]
    split_ifs
    · rw [List.map_map, ← ranges, ← map_range_recordFlush m _ epoch rs]
      exact map_congr_left fun b _ => range_removeFlushEvent b _
    · exact map_range_recordFlush m _ epoch rs
  · rfl

lemma ranges_getElem? (idx : ℕ) : m.ranges[idx]? = (m.buckets[idx]?).map Bucket.range := by
  simp [ranges]

variable {b : Bucket} {idx : ℕ}

lemma ranges_splitBucket (h : m.buckets[idx]? = some b) : (m.splitBucket idx).ranges =
      (m.ranges.set idx (b.minKey, splitPoint b)).insertIdx (idx + 1) (splitPoint b, b.maxKey) := by
  simp only [splitBucket, h, ranges, map_insertIdx, map_set]
  rfl

/-- A bucket of a tiling does not end before it starts. -/
lemma minKey_le_maxKey_of_tiled {lo : Slice} {rs : List (Slice × Slice)} (h : Tiled lo rs)
    {i : ℕ} {a b : Slice} (hget : rs[i]? = some (a, b)) : a = [] ∨ b = [] ∨ a ≤ b := by
  induction h generalizing i with
  | last lo =>
    cases i with
    | zero =>
      obtain ⟨rfl, rfl⟩ : lo = a ∧ [] = b := by simpa using hget
      exact .inr (.inl rfl)
    | succ i => simp at hget
  | @cons lo hi rest hhi hle _ ih =>
    cases i with
    | zero =>
      obtain ⟨rfl, rfl⟩ : lo = a ∧ hi = b := by simpa using hget
      exact hle.imp_right .inr
    | succ i => exact ih (by simpa using hget)

lemma tiled_splitBucket (h : Tiled [] m.ranges) (hs : ∀ b ∈ m.buckets[idx]?, b.Splittable) :
    Tiled [] (m.splitBucket idx).ranges := by
  cases hb : m.buckets[idx]? with
  | none => simpa [splitBucket, hb] using h
  | some b =>
    have hget : m.ranges[idx]? = some (b.minKey, b.maxKey) := by
      rw [ranges_getElem?, hb]
      rfl
    have hord := minKey_le_maxKey_of_tiled h hget
    rw [ranges_splitBucket m hb]
    refine h.split hget (splitPoint_ne_nil b) (minKey_le_splitPoint hord) ?_
    by_cases hmax : b.maxKey = []
    · exact .inl hmax
    · refine .inr ((splitPoint_le_maxKey_iff hmax ?_).2 (hs b hb))
      exact hord.imp_right fun h => h.resolve_left hmax

/-- Splitting a bucket of a tiling keeps the partition exactly when it is splittable. -/
theorem partitions_splitBucket_iff (h : Tiled [] m.ranges) (hb : m.buckets[idx]? = some b) :
    Partitions (m.splitBucket idx).ranges ↔ b.Splittable := by
  refine ⟨fun hpart => ?_, fun hs => (m.tiled_splitBucket h ?_).partitions⟩
  · by_contra hs
    have hget : m.ranges[idx]? = some (b.minKey, b.maxKey) := by
      rw [ranges_getElem?, hb]
      rfl
    have hmax : b.maxKey ≠ [] := fun h => hs (splittable_of_maxKey_eq_nil h)
    have hord := (minKey_le_maxKey_of_tiled h hget).imp_right fun h => h.resolve_left hmax
    have hlt : b.maxKey < splitPoint b :=
      not_le.1 fun hle => hs ((splitPoint_le_maxKey_iff hmax hord).1 hle)
    obtain ⟨j, hne, hi, hj⟩ := h.split_overlap hget hmax hlt
    rw [← ranges_splitBucket m hb] at hi hj
    exact hne ((hpart.cover b.maxKey).unique hj hi)
  · rw [hb]
    rintro b' ⟨⟩
    exact hs

/-- The second of three buckets is split at the midpoint of its bounds. -/
theorem partitions_splitBucket_iff_bounded :
    Partitions ((⟨[.ofRange [] [100], .ofRange [100] [200], .ofRange [200] []], 3, true, 0, 0,
      none⟩ : BucketManager).splitBucket 1).ranges :=
  (partitions_splitBucket_iff _
    (by exact .cons (by decide) (.inl rfl) (.cons (by decide) (.inr (by decide)) (.last _))) rfl).2
    (by decide)

lemma mergeLeft_add_one_lt (h : idx < m.buckets.length) (h1 : 1 < m.buckets.length) :
    m.mergeLeft idx + 1 < m.buckets.length := by
  unfold mergeLeft
  split_ifs <;> omega

lemma tiled_mergeWithAdjacentBucket (h : Tiled [] m.ranges) (idx : ℕ) :
    Tiled [] (m.mergeWithAdjacentBucket idx).ranges := by
  unfold mergeWithAdjacentBucket
  split_ifs with hidx
  · have hlt := m.mergeLeft_add_one_lt hidx.1 hidx.2
    dsimp only
    have hl := getElem?_eq_getElem (Nat.lt_of_succ_lt hlt)
    have hr := getElem?_eq_getElem hlt
    generalize m.buckets[m.mergeLeft idx] = l at hl
    generalize m.buckets[m.mergeLeft idx + 1] = r at hr
    simp only [hl, hr, ranges, ← eraseIdx_map, map_set]
    refine h.merge (a := l.minKey) (b := l.maxKey) (c := r.minKey) (d := r.maxKey) ?_ ?_
    · rw [ranges_getElem?, hl]
      rfl
    · rw [ranges_getElem?, hr]
      rfl
  · exact h

/-- Carrying out a decision keeps a tiling, if the bucket of a split is splittable. -/
lemma tiled_applyAdjustment (h : Tiled [] m.ranges) (hb : m.buckets[idx]? = some b)
    (a : Adjustment) (hs : a = .split → b.Splittable) :
    Tiled [] (m.applyAdjustment idx a).ranges := by
  cases a with
  | split =>
    refine m.tiled_splitBucket h ?_
    rw [hb]
    rintro b' ⟨⟩
    exact hs rfl
  | merge => exact m.tiled_mergeWithAdjacentBucket h idx
  | keep => exact h

end BucketManager

/-! ## The first flush -/

lemma tiled_rangesFrom {lo : Slice} {points : List Slice} (hne : ∀ p ∈ points, p ≠ [])
    (hsorted : points.Pairwise (· ≤ ·)) (hlo : ∀ p ∈ points, lo = [] ∨ lo ≤ p) :
    Tiled lo (rangesFrom lo points) := by
  induction points generalizing lo with
  | nil => exact Tiled.last lo
  | cons p points ih =>
    rw [pairwise_cons] at hsorted
    refine Tiled.cons (hne p (by simp)) (hlo p (by simp)) (ih ?_ hsorted.2 ?_)
    · exact fun q hq => hne q (by simp [hq])
    · exact fun q hq => .inr (hsorted.1 q hq)

/-- The `while` loop stops at the target position of the entries it started from. -/
lemma advanceTo_eq (target count : ℕ) (keys : List Slice) (h : count ≤ target) :
    (advanceTo target count keys).2 = keys.drop (target - count) ∧
      (keys.drop (target - count) ≠ [] → (advanceTo target count keys).1 = target) := by
  induction keys generalizing count with
  | nil => simp [advanceTo]
  | cons k keys ih =>
    by_cases hlt : count < target
    · have hsub : target - count = target - (count + 1) + 1 := by omega
      simp only [advanceTo, hlt, if_true, hsub, drop_succ_cons]
      exact ih (count + 1) hlt
    · have heq : count = target := by omega
      simp [advanceTo, heq]

/-- The split points are the keys at the multiples of the bucket size. -/
lemma splitPointLoop_sublist (n rounds i count : ℕ) (keys : List Slice) (hn : 0 < n)
    (h : count < i * n) :
    (splitPointLoop n rounds i count keys).Sublist (keys.drop (i * n - count)) := by
  induction rounds generalizing i count keys with
  | zero => exact nil_sublist _
  | succ rounds ih =>
    have hspec := advanceTo_eq (i * n) count keys h.le
    unfold splitPointLoop
    generalize advanceTo (i * n) count keys = adv at hspec
    obtain ⟨c, rest⟩ := adv
    obtain ⟨rfl, hc⟩ := hspec
    cases hrest : keys.drop (i * n - count) with
    | nil => exact Sublist.slnil
    | cons k rest =>
      obtain rfl : c = i * n := hc (by simp [hrest])
      -- the next round starts at `k` and skips at least that entry
      have hstep : (i + 1) * n - i * n = n - 1 + 1 := by
        rw [Nat.add_mul]
        omega
      have hnext := ih (i + 1) (i * n) (k :: rest) (by rw [Nat.add_mul]; omega)
      rw [hstep, drop_succ_cons] at hnext
      exact (hnext.trans (drop_sublist _ _)).cons_cons k

/-- With the user keys in iteration order, the split points of the first flush do not
decrease and come from the entries after the first bucket's share. -/
lemma firstFlushSplitPoints_sublist (total : ℕ) (target : ℤ) (keys : List Slice) :
    (firstFlushSplitPoints total target keys).Sublist
      (keys.drop (entriesPerBucket total target)) := by
  unfold firstFlushSplitPoints
  split_ifs with hn
  · simpa using splitPointLoop_sublist _ (target - 1).toNat 1 0 keys hn (by simpa using hn)
  · exact nil_sublist _

/-- The manager right after the first bucket flush has initialised it. -/
def firstFlushed (total : ℕ) (target : ℤ) (enableBucketAdjustment : Option Bool)
    (keys : List Slice) : BucketManager :=
  (BucketManager.new target enableBucketAdjustment).initializeFromFirstFlush
    (firstFlushSplitPoints total target keys)

lemma ranges_firstFlushed (total : ℕ) (target : ℤ) (enable : Option Bool) (keys : List Slice) :
    (firstFlushed total target enable keys).ranges =
      rangesFrom [] (firstFlushSplitPoints total target keys) := by
  simp only [firstFlushed, initializeFromFirstFlush, new,
    BucketManager.ranges, Bool.false_eq_true, if_false, List.map_map]
  exact List.map_id _

/-- The first flush tiles the key space unless its first split point is the empty key. -/
lemma tiled_firstFlushed {total : ℕ} {target : ℤ} {keys : List Slice}
    (hsorted : keys.Pairwise (· ≤ ·)) (hne : keys[entriesPerBucket total target]? ≠ some [])
    (enable : Option Bool) : Tiled [] (firstFlushed total target enable keys).ranges := by
  have hsub := firstFlushSplitPoints_sublist total target keys
  rw [ranges_firstFlushed]
  refine tiled_rangesFrom (fun p hp hnil => ?_) ?_ (fun p _ => .inl rfl)
  · -- the entries from the first split point on are no smaller than it, so not empty
    subst hnil
    have hmem := hsub.subset hp
    cases hdrop : keys.drop (entriesPerBucket total target) with
    | nil => simp [hdrop] at hmem
    | cons k rest =>
      have hk : keys[entriesPerBucket total target]? = some k := by
        rw [← head?_drop, hdrop]
        rfl
      have hge : k ≤ [] := by
        have hpw := hsorted.sublist (drop_sublist (entriesPerBucket total target) keys)
        rw [hdrop, pairwise_cons] at hpw
        rw [hdrop, mem_cons] at hmem
        rcases hmem with h | h
        · exact h ▸ le_rfl
        · exact hpw.1 _ h
      have hnil : k = [] := by
        cases k with
        | nil => rfl
        | cons x k => exact absurd (nil_lt_cons x k) (not_lt.2 hge)
      exact hne (hnil ▸ hk)
  · exact (hsorted.sublist (drop_sublist _ _)).sublist hsub

/-! ## Runs of the manager -/

/-- The calls made after the first flush. -/
inductive ManagerOp
  | onFlushCompleted (snapshotEpoch : UInt64) (results : List BucketFlushResult)
  | adjustAfterCompaction (compactedBucketIdx : ℤ)
  | adjustBucketsInRange (minKey maxKey : Slice)

section Runs

variable (D : Type) [Double D]

/-- The effect of a call on the manager. -/
def ManagerOp.apply (m : BucketManager) : ManagerOp → BucketManager
  | .onFlushCompleted epoch results => m.onFlushCompleted epoch results
  | .adjustAfterCompaction idx => (m.adjustAfterCompaction D idx).2
  | .adjustBucketsInRange lo hi => (m.adjustBucketsInRange D lo hi).2

/-- Every split made by the rounds of `AdjustBucketsInRange` hits a splittable bucket. -/
def RoundsSplittable (files bytes : UInt64) : Bool × BucketManager → List ℕ → Prop
  | _, [] => True
  | s, idx :: rest =>
    (∀ b ∈ s.2.buckets[idx]?, BucketManager.rangeAdjustment D files bytes
      (BucketManager.expectedRatio D s.2) s.2.buckets.length b = .split → b.Splittable) ∧
    RoundsSplittable files bytes (BucketManager.adjustRound D files bytes s idx) rest

/-- Every bucket the call is about to split is splittable. -/
def ManagerOp.Splittable (m : BucketManager) : ManagerOp → Prop
  | .onFlushCompleted _ _ => True
  | .adjustAfterCompaction idx =>
    m.enableBucketAdjustment ≠ some false → 0 ≤ idx →
      ∀ b ∈ m.buckets[idx.toNat]?, m.compactionAdjustment D b = .split → b.Splittable
  | .adjustBucketsInRange lo hi =>
    m.totalWindowFiles ≠ 0 → m.totalWindowBytes ≠ 0 → RoundsSplittable D m.totalWindowFiles m.totalWindowBytes (false, m)
      (m.findBucketsInRangeInternal lo hi).reverse

/-- One call, with any arguments. -/
def ManagerStep (m m' : BucketManager) : Prop := ∃ op : ManagerOp, m' = op.apply D m

/-- One call that splits only splittable buckets. -/
def SplittableStep (m m' : BucketManager) : Prop :=
  ∃ op : ManagerOp, op.Splittable D m ∧ m' = op.apply D m

lemma tiled_adjustRounds {files bytes : UInt64} {s : Bool × BucketManager} {idxs : List ℕ}
    (h : Tiled [] s.2.ranges) (hs : RoundsSplittable D files bytes s idxs) :
    Tiled [] (idxs.foldl (adjustRound D files bytes) s).2.ranges := by
  induction idxs generalizing s with
  | nil => exact h
  | cons idx idxs ih =>
    refine ih ?_ hs.2
    unfold adjustRound
    cases hb : s.2.buckets[idx]? with
    | none => exact h
    | some b => exact s.2.tiled_applyAdjustment h hb _ (hs.1 b hb)

/-- A call that splits only splittable buckets keeps a tiling. -/
lemma tiled_apply {m : BucketManager} (h : Tiled [] m.ranges) (op : ManagerOp)
    (hs : op.Splittable D m) : Tiled [] (op.apply D m).ranges := by
  cases op with
  | onFlushCompleted epoch results => simpa [ManagerOp.apply] using h
  | adjustAfterCompaction idx =>
    show Tiled [] (m.adjustAfterCompaction D idx).2.ranges
    unfold adjustAfterCompaction
    split_ifs with henable hneg
    · exact h
    · exact h
    · cases hb : m.buckets[idx.toNat]? with
      | none => exact h
      | some b => exact m.tiled_applyAdjustment h hb _ (hs henable (not_lt.1 hneg) b hb)
  | adjustBucketsInRange lo hi =>
    show Tiled [] (m.adjustBucketsInRange D lo hi).2.ranges
    unfold adjustBucketsInRange
    split_ifs with hzero
    · exact h
    · simp only [Bool.or_eq_true, decide_eq_true_eq, not_or] at hzero
      exact tiled_adjustRounds D h (hs hzero.1 hzero.2)

/-- In a partition, the first range that contains a key is the only one. -/
lemma Partitions.firstContaining {rs : List (Slice × Slice)} (h : Partitions rs) (key : Slice) :
    ∃ i, BucketLSM.firstContaining rs key = some i ∧ ∀ j, ContainsAt rs key j ↔ j = i := by
  obtain ⟨i, ⟨r, hr, hc⟩, huniq⟩ := h.cover key
  have hsome : (BucketLSM.firstContaining rs key).isSome := by
    rw [BucketLSM.firstContaining, List.findIdx?_isSome, List.any_eq_true]
    exact ⟨r, mem_of_getElem? hr, hc⟩
  obtain ⟨j, hj⟩ := isSome_iff_exists.1 hsome
  have hjc : ContainsAt rs key j := by
    obtain ⟨hlt, hp, -⟩ := findIdx?_eq_some_iff_getElem.1 hj
    exact ⟨rs[j], getElem?_eq_getElem hlt, hp⟩
  refine ⟨j, hj, fun k => ⟨fun hk => ?_, fun hk => hk ▸ hjc⟩⟩
  rw [huniq k hk, huniq j hjc]

/-- Along every run of calls that split only splittable buckets, after a first flush whose
first split point is not the empty key, the buckets partition the key space and both lookups
return the only bucket that contains the key. -/
theorem reachable_buckets_partition {total : ℕ} {target : ℤ} {keys : List Slice}
    (enable : Option Bool) (hsorted : keys.Pairwise (· ≤ ·))
    (hne : keys[entriesPerBucket total target]? ≠ some []) {m : BucketManager}
    (hrun : Relation.ReflTransGen (SplittableStep D) (firstFlushed total target enable keys) m) :
    Partitions m.ranges ∧ ∀ key, ∃ i : ℕ, firstContaining m.ranges key = some i ∧
      m.findBucketInternal key = i ∧ findBucketInSnapshot m.getSnapshot key = i ∧
      ∀ j, ContainsAt m.ranges key j ↔ j = i := by
  have htiled : Tiled [] m.ranges := by
    induction hrun with
    | refl => exact tiled_firstFlushed hsorted hne enable
    | tail _ hstep ih =>
      obtain ⟨op, hs, rfl⟩ := hstep
      exact tiled_apply D ih op hs
  refine ⟨htiled.partitions, fun key => ?_⟩
  obtain ⟨i, hi, huniq⟩ := htiled.partitions.firstContaining key
  exact ⟨i, hi, by simp [BucketManager.findBucketInternal, hi],
    by simp [findBucketInSnapshot, BucketManager.getSnapshot, hi], huniq⟩

end Runs

/-- A first flush over three entries into three buckets, followed by a flush that puts all
its bytes into the middle bucket and a compaction of that bucket, which splits it. -/
theorem reachable_buckets_partition_after_split :
    let m := firstFlushed 3 3 none [[65], [97], [98]]
    let m₁ := m.onFlushCompleted 0
      [⟨0, 0, 0, [], [], [97]⟩, ⟨1, 3, 100, [97, 5], [97], [98]⟩, ⟨0, 0, 0, [], [98], []⟩]
    Partitions (m₁.adjustAfterCompaction ℚ 1).2.ranges :=
  (reachable_buckets_partition ℚ none (by decide) (by decide)
    ((Relation.ReflTransGen.single ⟨.onFlushCompleted 0
        [⟨0, 0, 0, [], [], [97]⟩, ⟨1, 3, 100, [97, 5], [97], [98]⟩, ⟨0, 0, 0, [], [98], []⟩],
        trivial, rfl⟩).tail
      ⟨.adjustAfterCompaction 1, by unfold ManagerOp.Splittable; decide +kernel, rfl⟩)).1

/-- The same run with the middle bucket holding a single key, `"a"`: its range ends at the
successor of its start, the midpoint `"a\x80"` lies past that end, and after the split the
key `"a\x00"` belongs to two buckets. -/
theorem split_of_single_key_bucket_overlaps :
    ∃ m : BucketManager, Relation.ReflTransGen (ManagerStep ℚ)
        (firstFlushed 3 3 none [[65], [97], [97, 0]]) m ∧
      [[65], [97], [97, 0]].Pairwise ((· ≤ ·) : Slice → Slice → Prop) ∧ ¬ Partitions m.ranges := by
  refine ⟨_, (Relation.ReflTransGen.single ⟨.onFlushCompleted 0
    [⟨0, 0, 0, [], [], [97]⟩, ⟨1, 3, 100, [97], [97], [97, 0]⟩, ⟨0, 0, 0, [], [97, 0], []⟩],
    rfl⟩).tail ⟨.adjustAfterCompaction 1, rfl⟩, by decide, ?_⟩
  have hranges : ((((firstFlushed 3 3 none [[65], [97], [97, 0]]).onFlushCompleted 0
      [⟨0, 0, 0, [], [], [97]⟩, ⟨1, 3, 100, [97], [97], [97, 0]⟩,
        ⟨0, 0, 0, [], [97, 0], []⟩]).adjustAfterCompaction ℚ 1).2).ranges =
      [([], [97]), ([97], [97, 128]), ([97, 128], [97, 0]), ([97, 0], [])] := by decide +kernel
  show ¬ Partitions ((((firstFlushed 3 3 none [[65], [97], [97, 0]]).onFlushCompleted 0 _
    ).adjustAfterCompaction ℚ 1).2).ranges
  rw [hranges]
  intro h
  have h1 : ContainsAt [([], [97]), ([97], [97, 128]), ([97, 128], [97, 0]), ([97, 0], [])]
      [97, 0] 1 := ⟨([97], [97, 128]), rfl, by decide⟩
  have h3 : ContainsAt [([], [97]), ([97], [97, 128]), ([97, 128], [97, 0]), ([97, 0], [])]
      [97, 0] 3 := ⟨([97, 0], []), rfl, by decide⟩
  exact absurd ((h.cover [97, 0]).unique h1 h3) (by decide)

end BucketLSM
