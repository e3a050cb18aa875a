import BucketLSM.Bucket.Conservation
import BucketLSM.Bucket.Interleaving

/-!
# What `OnFlushCompleted` records of a flush

The slow path of `OnFlushCompleted` shares every result of an older snapshot out over the
buckets that overlap it now. Each bucket gets the quotient of an integer division, and what
the division leaves over goes to no bucket. The sums over all buckets are therefore those of
the results exactly when every division comes out even.
-/

namespace BucketLSM

open List

variable {α : Type}

/-! ## Sums over lists -/

/-- Sums that are ordered pointwise agree only if they agree pointwise. -/
lemma sum_map_eq_iff_of_le {f g : α → ℕ} {l : List α} (h : ∀ a ∈ l, f a ≤ g a) :
    (l.map f).sum = (l.map g).sum ↔ ∀ a ∈ l, f a = g a := by
  induction l with
  | nil => simp
  | cons a l ih =>
    have hhead := h a mem_cons_self
    have htail : (l.map f).sum ≤ (l.map g).sum :=
      sum_le_sum fun b hb => h b (mem_cons_of_mem a hb)
    rw [forall_mem_cons, ← ih fun b hb => h b (mem_cons_of_mem a hb)]
    simp only [map_cons, sum_cons]
    omega

lemma sum_map_sum_comm {β : Type} (f : α → β → ℕ) (as : List α) (bs : List β) :
    (as.map fun a => (bs.map (f a)).sum).sum = (bs.map fun b => (as.map (f · b)).sum).sum := by
  induction bs with
  | nil => simp
  | cons b bs ih =>
    simp only [map_cons, sum_cons]
    rw [sum_map_add, ih]

lemma sum_map_ite_const (p : α → Bool) (q : ℕ) (l : List α) :
    (l.map fun a => if p a then q else 0).sum = l.countP p * q := by
  induction l with
  | nil => simp
  | cons a l ih =>
    rw [map_cons, sum_cons, ih, countP_cons]
    split_ifs
    · ring
    · ring

/-- A loop that modifies the entries at distinct indices modifies each of them once. -/
lemma getElem?_foldl_modify (f : ℕ → α → α) {idxs : List ℕ} (h : idxs.Nodup) (l : List α) (j : ℕ)
    : (idxs.foldl (fun l i => l.modify i (f i)) l)[j]? =
      l[j]?.map fun a => if j ∈ idxs then f j a else a := by
  induction idxs generalizing l with
  | nil => simp
  | cons i idxs ih =>
    rw [nodup_cons] at h
    rw [foldl_cons, ih h.2, getElem?_modify, Option.map_eq_map, Option.map_map]
    congr 1
    funext a
    by_cases hij : i = j
    · subst hij
      simp [h.1]
    · simp [hij, Ne.symm hij]

/-! ## The slow path -/

namespace BucketManager

variable (m : BucketManager)

lemma mem_findBucketsInRangeInternal {lo hi : Slice} {i : ℕ} :
    i ∈ m.findBucketsInRangeInternal lo hi ↔
      ∃ b, m.buckets[i]? = some b ∧ rangeOverlaps lo hi b = true := by
  unfold findBucketsInRangeInternal
  rw [mem_filterMap]
  constructor
  · rintro ⟨⟨b, j⟩, hmem, hj⟩
    split_ifs at hj with hover
    obtain rfl : j = i := Option.some.inj hj
    exact ⟨b, mem_zipIdx_iff_getElem?.1 hmem, hover⟩
  · rintro ⟨b, hb, hover⟩
    exact ⟨(b, i), mem_zipIdx_iff_getElem?.2 hb, if_pos hover⟩

lemma nodup_findBucketsInRangeInternal (lo hi : Slice) :
    (m.findBucketsInRangeInternal lo hi).Nodup := by
  have hsub : (m.findBucketsInRangeInternal lo hi).Sublist (m.buckets.zipIdx.map Prod.snd) := by
    rw [← filterMap_eq_map]
    unfold findBucketsInRangeInternal
    generalize m.buckets.zipIdx = l
    induction l with
    | nil => exact Sublist.refl _
    | cons p l ih =>
      by_cases hover : rangeOverlaps lo hi p.1 = true
      · simpa [hover] using ih
      · simpa [hover] using ih.cons p.2
  rw [zipIdx_map_snd] at hsub
  exact hsub.nodup nodup_range'

/-- The number of current buckets a result is shared out over. -/
def overlapCount (r : BucketFlushResult) : ℕ :=
  (m.findBucketsInRangeInternal r.minKey r.maxKey).length

lemma overlapCount_eq (r : BucketFlushResult) :
    m.overlapCount r = m.buckets.countP (rangeOverlaps r.minKey r.maxKey) := by
  have hcount : ∀ (l : List (Bucket × ℕ)),
      (l.filterMap fun p => if rangeOverlaps r.minKey r.maxKey p.1 then some p.2 else none).length =
        (l.map Prod.fst).countP (rangeOverlaps r.minKey r.maxKey) := by
    intro l
    rw [length_filterMap_eq_countP, countP_map]
    refine countP_congr fun p _ => ?_
    by_cases hover : rangeOverlaps r.minKey r.maxKey p.1 = true
    · simp [hover]
    · simp [hover]
  rw [overlapCount, findBucketsInRangeInternal, hcount, zipIdx_map_fst]

/-- What a bucket gets of a result on the slow path. -/
def portion (x : Statistic) (r : BucketFlushResult) (b : Bucket) : UInt64 :=
  if rangeOverlaps r.minKey r.maxKey b then r.get x / UInt64.ofNat (m.overlapCount r) else 0

lemma map_get_accumulate (x : Statistic) (r : BucketFlushResult) {acc : List AccumulatedStats}
    {f : Bucket → UInt64} (hacc : acc.map (·.get x) = m.buckets.map f) :
    (m.accumulate acc r).map (·.get x) = m.buckets.map fun b => f b + m.portion x r b := by
  apply ext_getElem?
  intro j
  have hj : acc[j]?.map (·.get x) = m.buckets[j]?.map f := by
    rw [← getElem?_map, ← getElem?_map, hacc]
  rw [getElem?_map, getElem?_map, accumulate,
    getElem?_foldl_modify _ (m.nodup_findBucketsInRangeInternal _ _), Option.map_map]
  cases hb : m.buckets[j]? with
  | none =>
    rw [hb, Option.map_none, Option.map_eq_none_iff] at hj
    rw [hj]
    rfl
  | some b =>
    rw [hb, Option.map_some, Option.map_eq_some_iff] at hj
    obtain ⟨s, hs, hsx⟩ := hj
    rw [hs, Option.map_some, Option.map_some, Function.comp_apply, portion, ← hsx]
    have hmem : j ∈ m.findBucketsInRangeInternal r.minKey r.maxKey ↔
        rangeOverlaps r.minKey r.maxKey b = true := by
      rw [mem_findBucketsInRangeInternal]
      simp [hb]
    by_cases hover : rangeOverlaps r.minKey r.maxKey b = true
    · rw [if_pos (hmem.2 hover), if_pos hover]
      cases x <;> rfl
    · rw [if_neg (mt hmem.1 hover), if_neg hover, add_zero]

lemma map_get_accumulated (x : Statistic) (results : List BucketFlushResult) :
    (m.accumulated results).map (·.get x) =
      m.buckets.map fun b => (results.map fun r => m.portion x r b).sum := by
  have hfold : ∀ (acc : List AccumulatedStats) (f : Bucket → UInt64),
      acc.map (·.get x) = m.buckets.map f → (results.foldl m.accumulate acc).map (·.get x) =
        m.buckets.map fun b => f b + (results.map fun r => m.portion x r b).sum := by
    induction results with
    | nil => simp
    | cons r results ih =>
      intro acc f hacc
      rw [foldl_cons, ih _ _ (m.map_get_accumulate x r hacc)]
      simp [add_assoc]
  rw [accumulated, hfold _ (fun _ => 0)]
  · simp
  · rw [map_replicate, map_const']
    cases x <;> rfl

/-! ## What the buckets record for the new flush -/

lemma recorded_slide_credit (x : Statistic) (b : Bucket) (e : FlushEvent) :
    FlushEvents.recorded x e.flushId (Bucket.slide e.flushId (b.credit e)).flushEvents =
      e.get x := by
  have hstays : Bucket.windowSize < e.flushId → e.flushId ≠ e.flushId - Bucket.windowSize := by
    intro _ heq
    have hzero : Bucket.windowSize = 0 := sub_eq_self.1 heq.symm
    exact absurd hzero (by decide)
  rw [FlushEvents.recorded, Bucket.find_slide hstays, ← FlushEvents.recorded]
  exact (FlushEvents.recorded_assign x e.flushId e b.flushEvents e.flushId).trans (if_pos rfl)

lemma recordedNat_onFlushCompleted (hinit : m.initialized = true) (x : Statistic)
    (epoch : UInt64) (results : List BucketFlushResult) :
    (m.onFlushCompleted epoch results).recordedNat x (m.globalFlushCounter + 1) =
      ((m.flushedEvents (m.globalFlushCounter + 1) epoch results).map
        fun e => (e.get x).toNat).sum := by
  have hzip : ∀ (id : UInt64) (bs : List Bucket) (es : List FlushEvent), es.length = bs.length →
      (∀ e ∈ es, e.flushId = id) → ((List.zipWith Bucket.credit bs es).map (Bucket.slide id)).map
        (fun b => (FlushEvents.recorded x id b.flushEvents).toNat) =
      es.map fun e => (e.get x).toNat := by
    intro id bs es hlen hid
    apply ext_getElem
    · simp [hlen]
    · intro i h₁ h₂
      have hes : i < es.length := by simpa using h₂
      obtain rfl := hid es[i] (getElem_mem hes)
      simp only [List.getElem_map, List.getElem_zipWith]
      rw [recorded_slide_credit]
  rw [recordedNat, m.buckets_onFlushCompleted hinit, recordFlush_eq,
    hzip _ _ _ (m.length_flushedEvents _ _ _) fun _ => m.flushId_of_mem_flushedEvents]

variable {results : List BucketFlushResult}

lemma recordedNat_fastPath (hinit : m.initialized = true) (x : Statistic) {epoch : UInt64}
    (hfast : m.FastPath epoch results) :
    (m.onFlushCompleted epoch results).recordedNat x (m.globalFlushCounter + 1) =
      (results.map fun r => (r.get x).toNat).sum := by
  rw [recordedNat_onFlushCompleted m hinit, flushedEvents, if_pos hfast, map_map]
  cases x <;> rfl

lemma recordedNat_slowPath (hinit : m.initialized = true) (x : Statistic) {epoch : UInt64}
    (hslow : ¬ m.FastPath epoch results) :
    (m.onFlushCompleted epoch results).recordedNat x (m.globalFlushCounter + 1) =
      (m.buckets.map fun b =>
        (results.map fun r => (m.portion x r b).toNat).sum % 2 ^ 64).sum := by
  have hget : ∀ (id : UInt64) (acc : List AccumulatedStats),
      (acc.map (AccumulatedStats.event id)).map (fun e => (e.get x).toNat) =
        (acc.map (·.get x)).map UInt64.toNat := by
    intro id acc
    rw [map_map, map_map]
    cases x <;> rfl
  rw [recordedNat_onFlushCompleted m hinit, flushedEvents, if_neg hslow, hget,
    map_get_accumulated, map_map]
  congr 1
  refine map_congr_left fun b _ => ?_
  rw [Function.comp_apply, FlushEvents.toNat_sum, map_map]
  rfl

/-! ## When nothing is lost -/

/-- The flush is recorded as a whole: over all buckets, every statistic recorded for the new
flush id sums up to that of the results. -/
def RecordsAll (m : BucketManager) (epoch : UInt64) (results : List BucketFlushResult) : Prop :=
  ∀ x : Statistic, (m.onFlushCompleted epoch results).recordedNat x (m.globalFlushCounter + 1) =
    (results.map fun r => (r.get x).toNat).sum

/-- Every result can be shared out over the buckets that overlap it without a remainder. -/
def SharesEvenly (m : BucketManager) (results : List BucketFlushResult) : Prop :=
  ∀ x : Statistic, ∀ r ∈ results, m.overlapCount r ∣ (r.get x).toNat

/-- What one bucket is due of all the results fits in 64 bits. -/
def PortionsFit (m : BucketManager) (results : List BucketFlushResult) : Prop :=
  ∀ x : Statistic, ∀ b ∈ m.buckets, (results.map fun r =>
    if rangeOverlaps r.minKey r.maxKey b then (r.get x).toNat / m.overlapCount r else 0).sum <
      2 ^ 64

section

variable (hsize : m.buckets.length < 2 ^ 64) (x : Statistic) (r : BucketFlushResult)

include hsize x r

lemma toNat_portion (b : Bucket) : (m.portion x r b).toNat =
      if rangeOverlaps r.minKey r.maxKey b then (r.get x).toNat / m.overlapCount r else 0 := by
  have hcount : m.overlapCount r < 2 ^ 64 := by
    rw [overlapCount_eq]
    exact countP_le_length.trans_lt hsize
  unfold portion
  split_ifs
  · rw [UInt64.toNat_div, UInt64.toNat_ofNat', Nat.mod_eq_of_lt hcount]
  · rfl

/-- The portions of a result, over all buckets. -/
lemma sum_toNat_portion : (m.buckets.map fun b => (m.portion x r b).toNat).sum =
      m.overlapCount r * ((r.get x).toNat / m.overlapCount r) := by
  simp only [toNat_portion m hsize]
  rw [sum_map_ite_const, ← overlapCount_eq]

end

/-- `OnFlushCompleted` records the whole flush exactly when it takes the fast path or every
result can be shared out evenly. -/
theorem records_all_iff (hinit : m.initialized = true) (hsize : m.buckets.length < 2 ^ 64)
    (epoch : UInt64) (results : List BucketFlushResult) : m.RecordsAll epoch results ↔
      m.FastPath epoch results ∨ (m.SharesEvenly results ∧ m.PortionsFit results) := by
  by_cases hfast : m.FastPath epoch results
  · exact iff_of_true (fun x => m.recordedNat_fastPath hinit x hfast) (.inl hfast)
  · rw [or_iff_right hfast, SharesEvenly, PortionsFit, ← forall_and]
    refine forall_congr' fun x => ?_
    rw [recordedNat_slowPath m hinit x hfast]
    simp only [← toNat_portion m hsize x]
    -- dropping the carries and dropping the remainders can each only make the sum smaller
    have hcarry : (m.buckets.map fun b =>
        (results.map fun r => (m.portion x r b).toNat).sum % 2 ^ 64).sum ≤
        (m.buckets.map fun b => (results.map fun r => (m.portion x r b).toNat).sum).sum :=
      sum_le_sum fun b _ => Nat.mod_le _ _
    have hshares : (m.buckets.map fun b => (results.map fun r => (m.portion x r b).toNat).sum).sum =
        (results.map fun r => m.overlapCount r * ((r.get x).toNat / m.overlapCount r)).sum := by
      rw [sum_map_sum_comm]
      simp only [sum_toNat_portion m hsize]
    have hremainder : (results.map fun r =>
        m.overlapCount r * ((r.get x).toNat / m.overlapCount r)).sum ≤
        (results.map fun r => (r.get x).toNat).sum :=
      sum_le_sum fun r _ => Nat.mul_div_le _ _
    have heven := sum_map_eq_iff_of_le (l := results) fun r _ =>
      Nat.mul_div_le (r.get x).toNat (m.overlapCount r)
    have hfits := sum_map_eq_iff_of_le (l := m.buckets) fun b _ =>
      Nat.mod_le (results.map fun r => (m.portion x r b).toNat).sum (2 ^ 64)
    have hdvd : (∀ r ∈ results, m.overlapCount r ∣ (r.get x).toNat) ↔
        ∀ r ∈ results, m.overlapCount r * ((r.get x).toNat / m.overlapCount r) = (r.get x).toNat :=
      forall₂_congr fun r _ => ⟨Nat.mul_div_cancel', fun h => Dvd.intro _ h⟩
    have hlt : (∀ b ∈ m.buckets, (results.map fun r => (m.portion x r b).toNat).sum < 2 ^ 64) ↔
        ∀ b ∈ m.buckets, (results.map fun r => (m.portion x r b).toNat).sum % 2 ^ 64 =
          (results.map fun r => (m.portion x r b).toNat).sum :=
      forall₂_congr fun b _ => (Nat.mod_eq_iff_lt (by decide)).symm
    rw [hdvd, hlt, ← heven, ← hfits]
    omega

/-- A flush into two buckets whose first one is split before the flush completes. -/
def splitDuringFlush : BucketManager :=
  ManagerCall.run ℚ (new 2 none) [.initializeFromFirstFlush [[98]],
    .op (.onFlushCompleted 0 [⟨1, 3, 100, [97], [], [98]⟩, ⟨0, 0, 0, [], [98], []⟩]),
    .op (.adjustAfterCompaction 0)]

theorem records_all_even_shares :
    ¬ splitDuringFlush.FastPath 0 [⟨2, 4, 100, [97], [], [98]⟩, ⟨1, 1, 9, [99], [98], []⟩] ∧
      splitDuringFlush.RecordsAll 0 [⟨2, 4, 100, [97], [], [98]⟩, ⟨1, 1, 9, [99], [98], []⟩] :=
  ⟨by decide +kernel,
    (splitDuringFlush.records_all_iff (by decide +kernel) (by decide +kernel) 0 _).2
      (.inr ⟨fun x => by cases x <;> decide +kernel, fun x => by cases x <;> decide +kernel⟩)⟩

/-- A single file, three entries and nine bytes: neither half of the split bucket gets the
file, and an entry and a byte are dropped. -/
theorem remap_drops_remainders : Partitions splitDuringFlush.ranges ∧
      Partitions ([⟨1, 3, 9, [97], [], [98]⟩, ⟨0, 0, 0, [], [98], []⟩].map
        BucketFlushResult.range) ∧
      ¬ splitDuringFlush.RecordsAll 0 [⟨1, 3, 9, [97], [], [98]⟩, ⟨0, 0, 0, [], [98], []⟩] := by
  refine ⟨?_, ?_, fun h => absurd (h .fileCount) (by decide +kernel)⟩
  · have hranges : splitDuringFlush.ranges =
        [([], [97]), ([97], [98]), ([98], [])] := by decide +kernel
    rw [hranges]
    exact (Tiled.cons (by decide) (by decide) (.cons (by decide) (by decide) (.last _))).partitions
  · exact (Tiled.cons (by decide) (by decide) (.last _)).partitions

end BucketManager

end BucketLSM
