import BucketLSM.Bucket.Window

/-!
# What splits and merges do to the statistics

A split moves each event to one of the halves and a merge adds the events of the neighbours, so
that the sums over all buckets stay, modulo `2^64`.
-/

namespace BucketLSM

open List FlushEvents ManagerCall Bucket UInt64

namespace FlushEvents

lemma recorded_cons (x : Statistic) (id : UInt64) (p : UInt64 × FlushEvent) (events : FlushEvents) :
    recorded x id (p :: events) = if p.1 = id then p.2.get x else recorded x id events := by
  rw [recorded, find_cons]
  by_cases h : p.1 = id
  · rw [if_pos h, if_pos h]
    rfl
  · rw [if_neg h, if_neg h]
    rfl

/-- In the order of the map, nothing more is recorded for a flush after its event. -/
lemma recorded_tail {p : UInt64 × FlushEvent} {events : FlushEvents}
    (h : Ordered (p :: events)) (x : Statistic) : recorded x p.1 events = 0 :=
  recorded_of_ne (fun q hq => (UInt64.ne_of_lt ((pairwise_cons.1 h).1 q hq)).symm) x

/-- Of the two parts of the events one has what is recorded for a flush, the other nothing. -/
lemma recorded_filter {events : FlushEvents} (h : events.Ordered)
    (right : UInt64 × FlushEvent → Bool) (x : Statistic) (id : UInt64) :
    (recorded x id (events.filter fun p => !right p) = recorded x id events ∧
      recorded x id (events.filter right) = 0) ∨
    (recorded x id (events.filter fun p => !right p) = 0 ∧
      recorded x id (events.filter right) = recorded x id events) := by
  have hpart (part : UInt64 × FlushEvent → Bool) : recorded x id (events.filter part) =
      total x (((find id events).map (id, ·)).toList.filter part) := by
    rw [← total_filter_eq (h.sublist filter_sublist), ← filter_eq_find h, filter_filter,
      filter_filter]
    simp only [Bool.and_comm]
  rw [hpart, hpart, ← total_filter_eq h, filter_eq_find h]
  cases find id events with
  | none => exact .inl ⟨rfl, rfl⟩
  | some e => cases hright : right (id, e) <;> simp [hright, total]

lemma recorded_mergeEvents {left right : FlushEvents} (h : right.Ordered) (x : Statistic)
    (id : UInt64) :
    recorded x id (mergeEvents left right) = recorded x id left + recorded x id right := by
  induction right generalizing left with
  | nil => exact (add_zero _).symm
  | cons p right ih =>
    obtain ⟨e, heq, hget⟩ := mergeEvents_cons left p right
    rw [heq, ih (pairwise_cons.1 h).2, recorded_assign, recorded_cons]
    by_cases hid : p.1 = id
    · rw [if_pos hid, if_pos hid, hget, ← hid, recorded_tail h, add_zero]
    · rw [if_neg hid, if_neg hid]

lemma total_mergeEvents {left : FlushEvents} (h : left.Ordered) (right : FlushEvents)
    (x : Statistic) : total x (mergeEvents left right) = total x left + total x right := by
  induction right generalizing left with
  | nil => exact (add_zero _).symm
  | cons p right ih =>
    obtain ⟨e, heq, hget⟩ := mergeEvents_cons left p right
    have hassign := total_assign h x p.1 e
    rw [hget, add_comm (recorded x p.1 left), ← add_assoc] at hassign
    rw [heq, ih (ordered_assign h _ _), add_right_cancel hassign, total_cons, add_assoc]

end FlushEvents

/-! ## Splits and merges -/

lemma Bucket.flushEvents_splitLeft (b : Bucket) : b.splitLeft.flushEvents =
      b.flushEvents.filter fun p => !decide (splitPoint b ≤ p.2.medianKey) :=
  filter_congr fun _ _ => decide_not

namespace BucketManager

/-- What all buckets together record for a flush, modulo `2^64`. -/
def recorded (m : BucketManager) (x : Statistic) (id : UInt64) : UInt64 :=
  (m.buckets.map fun b => FlushEvents.recorded x id b.flushEvents).sum

/-- What all buckets together record for a flush. -/
def recordedNat (m : BucketManager) (x : Statistic) (id : UInt64) : ℕ :=
  (m.buckets.map fun b => (FlushEvents.recorded x id b.flushEvents).toNat).sum

/-- The total of a statistic over all windows: `total_window_files` and `total_window_bytes`. -/
def totalWindow (m : BucketManager) (x : Statistic) : UInt64 :=
  (m.buckets.map fun b => b.window x).sum

lemma toNat_recorded (m : BucketManager) (x : Statistic) (id : UInt64) :
    (m.recorded x id).toNat = m.recordedNat x id % 2 ^ 64 := by
  rw [recorded, FlushEvents.toNat_sum, List.map_map]
  rfl

/-- The statistics of `m'` are those of `m`. The sums themselves can only get smaller, by a
multiple of `2^64`. -/
structure Conserved (m m' : BucketManager) : Prop where
  recorded_eq : ∀ x id, m'.recorded x id = m.recorded x id
  recordedNat_le : ∀ x id, m'.recordedNat x id ≤ m.recordedNat x id
  totalWindow_eq : ∀ x, m'.totalWindow x = m.totalWindow x

lemma Conserved.refl (m : BucketManager) : m.Conserved m := ⟨fun _ _ => rfl, fun _ _ => le_rfl, fun _ => rfl⟩

variable {m : BucketManager}

lemma Conserved.trans {m' m'' : BucketManager} (h : m.Conserved m') (h' : m'.Conserved m'') :
    m.Conserved m'' where
  recorded_eq x id := (h'.recorded_eq x id).trans (h.recorded_eq x id)
  recordedNat_le x id := (h'.recordedNat_le x id).trans (h.recordedNat_le x id)
  totalWindow_eq x := (h'.totalWindow_eq x).trans (h.totalWindow_eq x)

/-- A sum that fits in 64 bits is kept exactly. -/
lemma Conserved.recordedNat_eq {m' : BucketManager} (h : m.Conserved m') {x : Statistic}
    {id : UInt64} (hfits : m.recordedNat x id < 2 ^ 64) :
    m'.recordedNat x id = m.recordedNat x id := by
  have hle := h.recordedNat_le x id
  have hmod := congrArg toNat (h.recorded_eq x id)
  rwa [toNat_recorded, toNat_recorded, Nat.mod_eq_of_lt hfits, Nat.mod_eq_of_lt (hle.trans_lt hfits)]
    at hmod

lemma conserved_splitBucket (h : m.Windowed) (idx : ℕ) : m.Conserved (m.splitBucket idx) := by
  rcases m.splitBucket_cases idx with heq | ⟨before, b, after, hbuckets, heq⟩
  · rw [heq]
    exact .refl m
  · have hb : b.Windowed m.globalFlushCounter.toNat := h b (by simp [hbuckets])
    have hright : b.splitRight.flushEvents =
        b.flushEvents.filter fun p => splitPoint b ≤ p.2.medianKey := rfl
    have hsplit := recorded_filter hb.ordered fun p => splitPoint b ≤ p.2.medianKey
    rw [heq]
    constructor
    · intro x id
      simp only [recorded, hbuckets, map_append, map_cons, sum_append,
        sum_cons, b.flushEvents_splitLeft, hright]
      rcases hsplit x id with ⟨hleft, hright⟩ | ⟨hleft, hright⟩
      · rw [hleft, hright, zero_add]
      · rw [hleft, hright, zero_add]
    · intro x id
      simp only [recordedNat, hbuckets, map_append, map_cons, sum_append,
        sum_cons, b.flushEvents_splitLeft, hright]
      rcases hsplit x id with ⟨hleft, hright⟩ | ⟨hleft, hright⟩
      · rw [hleft, hright, UInt64.toNat_zero, Nat.zero_add]
      · rw [hleft, hright, UInt64.toNat_zero, Nat.zero_add]
    · intro x
      have htotal := total_filter b.flushEvents
        (fun p => splitPoint b ≤ p.2.medianKey) x
      rw [← b.flushEvents_splitLeft, ← hright, ← hb.window_eq, ← hb.splitLeft.window_eq,
        ← hb.splitRight.window_eq] at htotal
      simp only [totalWindow, hbuckets, map_append, map_cons, sum_append, sum_cons]
      rw [← htotal, add_assoc]

lemma conserved_mergeWithAdjacentBucket (h : m.Windowed) (idx : ℕ) :
    m.Conserved (m.mergeWithAdjacentBucket idx) := by
  rcases m.mergeWithAdjacentBucket_cases idx with heq | ⟨before, l, r, after, hbuckets, heq⟩
  · rw [heq]
    exact .refl m
  · have hl : l.Windowed m.globalFlushCounter.toNat := h l (by simp [hbuckets])
    have hr : r.Windowed m.globalFlushCounter.toNat := h r (by simp [hbuckets])
    have hmerge : ∀ x id, FlushEvents.recorded x id (l.mergeWith r).flushEvents =
        FlushEvents.recorded x id l.flushEvents + FlushEvents.recorded x id r.flushEvents :=
      fun x id => FlushEvents.recorded_mergeEvents hr.ordered x id
    rw [heq]
    constructor
    · intro x id
      simp only [recorded, hbuckets, List.map_append, List.map_cons, List.sum_append,
        sum_cons, hmerge, add_assoc]
    · intro x id
      simp only [recordedNat, hbuckets, List.map_append, List.map_cons, List.sum_append,
        List.sum_cons, hmerge, UInt64.toNat_add]
      have := Nat.mod_le ((FlushEvents.recorded x id l.flushEvents).toNat +
        (FlushEvents.recorded x id r.flushEvents).toNat) (2 ^ 64)
      omega
    · intro x
      have htotal := total_mergeEvents hl.ordered r.flushEvents x
      rw [← hl.window_eq, ← hr.window_eq] at htotal
      simp only [totalWindow, hbuckets, map_append, map_cons, sum_append, sum_cons]
      rw [(hl.mergeWith hr).window_eq x, ← add_assoc (l.window x), ← htotal]
      rfl

section Adjustments

variable (D : Type) [Double D] {m : BucketManager}

/-- An adjustment keeps the window invariant and the statistics. -/
lemma conserved_apply (h : m.Windowed) {op : ManagerOp}
    (hop : (ManagerCall.op op).isFlush = false) :
    (op.apply D m).Windowed ∧ m.Conserved (op.apply D m) := by
  have hsplit : ∀ m' idx, m'.Windowed ∧ m.Conserved m' →
      (splitBucket m' idx).Windowed ∧ m.Conserved (splitBucket m' idx) := fun _ idx h' =>
    ⟨h'.1.splitBucket idx, h'.2.trans (conserved_splitBucket h'.1 idx)⟩
  have hmerge : ∀ m' idx, m'.Windowed ∧ m.Conserved m' → (mergeWithAdjacentBucket m' idx).Windowed ∧
      m.Conserved (mergeWithAdjacentBucket m' idx) := fun _ idx h' =>
    ⟨h'.1.mergeWithAdjacentBucket idx, h'.2.trans (conserved_mergeWithAdjacentBucket h'.1 idx)⟩
  cases op with
  | onFlushCompleted epoch results => cases hop
  | adjustAfterCompaction idx =>
    exact adjustAfterCompaction_preserves D hsplit hmerge ⟨h, .refl m⟩ idx
  | adjustBucketsInRange lo hi =>
    exact adjustBucketsInRange_preserves D hsplit hmerge ⟨h, .refl m⟩ lo hi

lemma conserved_adjustments (adjustments : List ManagerOp) (h : m.Windowed)
    (hadjust : ∀ op ∈ adjustments, (ManagerCall.op op).isFlush = false) :
    m.Conserved (adjustments.foldl (ManagerOp.apply D) m) := by
  induction adjustments generalizing m with
  | nil => exact .refl m
  | cons op adjustments ih =>
    obtain ⟨hnext, hstep⟩ := conserved_apply D h (hadjust op mem_cons_self)
    exact hstep.trans (ih hnext fun op' hop' => hadjust op' (mem_cons_of_mem _ hop'))

/-- After every run of fewer than `2^64` flushes, adjustments keep what all buckets together
record for each flush and the totals of the windows, modulo `2^64`, and what is recorded exactly
if the sum fits in 64 bits. -/
theorem adjustments_conserve_statistics (target : ℤ) (enable : Option Bool)
    (calls : List ManagerCall) (hflushes : ManagerCall.flushCount calls < 2 ^ 64)
    (adjustments : List ManagerOp)
    (hadjust : ∀ op ∈ adjustments, (ManagerCall.op op).isFlush = false) (x : Statistic) :
    let m := ManagerCall.run D (new target enable) calls
    let m' := adjustments.foldl (ManagerOp.apply D) m
    (∀ id, m'.recorded x id = m.recorded x id) ∧
    (∀ id, m.recordedNat x id < 2 ^ 64 → m'.recordedNat x id = m.recordedNat x id) ∧
    m'.totalWindow x = m.totalWindow x := by
  intro m m'
  have hm : m.Windowed :=
    (windowed_new target enable).run D calls (Nat.le_refl _) (by simpa [new] using hflushes)
  have hconserved := conserved_adjustments D adjustments hm hadjust
  exact ⟨hconserved.recorded_eq x, fun id => hconserved.recordedNat_eq, hconserved.totalWindow_eq x⟩

end Adjustments

/-- A hot bucket is split, and the bucket beside it merged with the right half. -/
theorem adjustments_conserve_statistics_hot_bucket :
    let m := run ℚ (new 2 none) [.initializeFromFirstFlush [[98]],
      .op (.onFlushCompleted 0 [⟨1, 3, 100, [97], [], [98]⟩, ⟨0, 0, 0, [], [98], []⟩])]
    let m' := [ManagerOp.adjustAfterCompaction 0, .adjustAfterCompaction 2].foldl
      (ManagerOp.apply ℚ) m
    m'.ranges ≠ m.ranges ∧ m'.recordedNat .dataBytes 1 = 100 := by
  have hconserve := adjustments_conserve_statistics ℚ 2 none [.initializeFromFirstFlush [[98]],
    .op (.onFlushCompleted 0 [⟨1, 3, 100, [97], [], [98]⟩, ⟨0, 0, 0, [], [98], []⟩])] (by decide)
    [.adjustAfterCompaction 0, .adjustAfterCompaction 2] (by decide) .dataBytes
  refine ⟨by decide +kernel, (hconserve.2.1 1 (by decide +kernel)).trans (by decide +kernel)⟩

end BucketManager

/-! ### An event overwritten after the counter has wrapped -/

namespace FlushEvents

lemma recorded_erase (x : Statistic) (id : UInt64) (events : FlushEvents) (j : UInt64) :
    recorded x j (erase id events) = if id = j then 0 else recorded x j events := by
  rw [recorded, erase, find, Keyed.find?_filter_ne]
  simp only [eq_comm (a := j)]
  split_ifs <;> rfl

lemma total_eq_zero {events : FlushEvents} (h : events.Ordered) {x : Statistic}
    (hzero : ∀ id, recorded x id events = 0) : total x events = 0 := by
  induction events with
  | nil => rfl
  | cons p events ih =>
    have hp := hzero p.1
    rw [recorded_cons, if_pos rfl] at hp
    rw [total_cons, hp, zero_add]
    refine ih (pairwise_cons.1 h).2 fun id => ?_
    by_cases hid : p.1 = id
    · exact hid ▸ recorded_tail h x
    · have := hzero id
      rwa [recorded_cons, if_neg hid] at this

end FlushEvents

namespace Bucket

/-- The flush that leaves the window at `id` has left nothing in the bucket. -/
def LeavesNothing (id : UInt64) (b : Bucket) : Prop :=
  windowSize < id → ∀ x, recorded x (id - windowSize) b.flushEvents = 0

variable {b : Bucket}

lemma recorded_flush {e : FlushEvent} (h : b.LeavesNothing e.flushId) (x : Statistic) (j : UInt64) :
    recorded x j (slide e.flushId (b.credit e)).flushEvents =
      if e.flushId = j then e.get x else recorded x j b.flushEvents := by
  have hcredit : recorded x j (b.credit e).flushEvents =
      if e.flushId = j then e.get x else recorded x j b.flushEvents :=
    recorded_assign x e.flushId e b.flushEvents j
  by_cases hlt : windowSize < e.flushId
  · rw [slide, if_pos hlt, flushEvents_removeFlushEvent, recorded_erase, hcredit]
    by_cases hj : e.flushId - windowSize = j
    · have hne : e.flushId ≠ j := fun h' => absurd (sub_eq_self.1 (hj.trans h'.symm)) (by decide)
      rw [if_pos hj, if_neg hne, ← hj, h hlt x]
    · rw [if_neg hj]
  · rw [slide, if_neg hlt, hcredit]

lemma window_flush {e : FlushEvent} (h : b.LeavesNothing e.flushId) (x : Statistic) :
    (slide e.flushId (b.credit e)).window x = b.window x + e.get x := by
  have hcredit : (b.credit e).window x = b.window x + e.get x := by cases x <;> rfl
  unfold slide
  split_ifs with hlt
  · have hnone : recorded x (e.flushId - windowSize) (b.credit e).flushEvents = 0 := by
      refine (recorded_assign x e.flushId e b.flushEvents _).trans ?_
      rw [if_neg fun h' => absurd (sub_eq_self.1 h'.symm) (by decide), h hlt x]
    rw [window_removeFlushEvent, hnone, sub_zero, hcredit]
  · exact hcredit

/-- Empty flushes change nothing that counts, if neither their own ids nor those that leave the
window record anything. -/
lemma afterEmptyFlushes_spec {c : UInt64} {n : ℕ}
    (hid : ∀ k < n, ∀ x, recorded x (c + ofNat k + 1) b.flushEvents = 0)
    (hleaves : ∀ k < n, b.LeavesNothing (c + ofNat k + 1)) (x : Statistic) :
    (afterEmptyFlushes c n b).window x = b.window x ∧
      ∀ j, recorded x j (afterEmptyFlushes c n b).flushEvents = recorded x j b.flushEvents := by
  induction n generalizing x with
  | zero => exact ⟨rfl, fun _ => rfl⟩
  | succ n ih =>
    have hprev := fun x => ih (fun k hk => hid k (Nat.lt_succ_of_lt hk))
      (fun k hk => hleaves k (Nat.lt_succ_of_lt hk)) x
    have hnothing : LeavesNothing (emptyEvent (c + ofNat n + 1)).flushId
        (afterEmptyFlushes c n b) := fun hlt y =>
      ((hprev y).2 _).trans (hleaves n (Nat.lt_succ_self n) hlt y)
    have hget : (emptyEvent (c + ofNat n + 1)).get x = 0 := by
      cases x <;> rfl
    constructor
    · exact (window_flush hnothing x).trans (by rw [hget, add_zero, (hprev x).1])
    · intro j
      refine (recorded_flush hnothing x j).trans ?_
      by_cases hj : c + ofNat n + 1 = j
      · exact (if_pos hj).trans (hget.trans (hj ▸ (hid n (Nat.lt_succ_self n) x).symm))
      · exact (if_neg hj).trans ((hprev x).2 j)

lemma ordered_afterEmptyFlushes (c : UInt64) (n : ℕ) (h : b.flushEvents.Ordered) :
    (afterEmptyFlushes c n b).flushEvents.Ordered := by
  induction n with
  | zero => exact h
  | succ n ih =>
    rw [afterEmptyFlushes, flushEvents_slide]
    exact (ordered_assign ih _ _).sublist filter_sublist

end Bucket

namespace Bucket

/-- A bucket that gets the event `e` as the last one before the counter wraps, and after that as
many empty flushes as it takes to come to the id of `e` again. -/
def overwritten (n : ℕ) (lo hi : Slice) (e : FlushEvent) : Bucket :=
  afterEmptyFlushes e.flushId (n + 2)
    (slide e.flushId ((afterEmptyFlushes 0 n (ofRange lo hi)).credit e))

/-- After the empty flushes of a whole round the event of the flush before is about to be
overwritten. -/
lemma afterRound_spec {n : ℕ} (hn : n + 2 = 2 ^ 64) {b : Bucket} {id : UInt64}
    (hid : id = ofNat (n + 1))
    (hothers : ∀ j ≠ id, ∀ x, recorded x j b.flushEvents = 0) (x : Statistic) :
    (afterEmptyFlushes id (n + 1) b).window x = b.window x ∧
      ∀ j, recorded x j (afterEmptyFlushes id (n + 1) b).flushEvents =
        recorded x j b.flushEvents := by
  have hnext : id + 1 = 0 := hid ▸ BucketManager.ofNat_wrap hn
  have hround : ∀ k, id + ofNat k + 1 = ofNat k := fun k => by
    rw [add_right_comm, hnext, zero_add]
  have hnat : ∀ k < n + 2, (ofNat k).toNat = k := fun k hk =>
    toNat_ofNat'.trans (Nat.mod_eq_of_lt (hn ▸ hk))
  have hidnat : id.toNat = n + 1 := hid ▸ hnat (n + 1) (by omega)
  refine afterEmptyFlushes_spec (fun k hk y => ?_) (fun k hk hlt y => ?_) x
  · rw [hround]
    refine hothers _ (fun h => ?_) y
    have := hnat k (by omega)
    rw [h, hidnat] at this
    omega
  · rw [hround] at hlt ⊢
    refine hothers _ (fun h => ?_) y
    have hle := UInt64.toNat_sub_of_le _ _ (UInt64.le_of_lt hlt)
    rw [h, hidnat, hnat k (by omega)] at hle
    omega

/-- The event is overwritten then, and the running totals still count it. -/
lemma overwritten_spec {n : ℕ} (hn : n + 2 = 2 ^ 64) (lo hi : Slice) {e : FlushEvent}
    (hid : e.flushId = ofNat (n + 1)) (x : Statistic) : (overwritten n lo hi e).window x = e.get x ∧
      (overwritten n lo hi e).flushEvents.Ordered ∧
      total x (overwritten n lo hi e).flushEvents = 0 := by
  have hfresh := afterEmptyFlushes_spec (c := 0) (n := n) (b := ofRange lo hi)
    (fun _ _ _ => rfl) (fun _ _ _ _ => rfl)
  have hordered : (overwritten n lo hi e).flushEvents.Ordered := by
    refine ordered_afterEmptyFlushes _ _ ?_
    rw [flushEvents_slide]
    exact (ordered_assign (ordered_afterEmptyFlushes 0 n (b := ofRange lo hi) .nil) _ _).sublist
      filter_sublist
  unfold overwritten at hordered ⊢
  generalize afterEmptyFlushes 0 n (ofRange lo hi) = b at hfresh hordered ⊢
  have hempty : ∀ y j, recorded y j b.flushEvents = 0 := fun y j => (hfresh y).2 j
  have hwindow : b.window x = 0 := (hfresh x).1.trans (by cases x <;> rfl)
  have hcredit := recorded_flush (b := b) (e := e) (fun _ y => hempty y _)
  have hcounted := window_flush (b := b) (e := e) (fun _ y => hempty y _) x
  rw [hwindow, zero_add] at hcounted
  generalize slide e.flushId (b.credit e) = c at hcredit hcounted hordered ⊢
  have hothers : ∀ j ≠ e.flushId, ∀ y, recorded y j c.flushEvents = 0 := fun j hj y => by
    rw [hcredit, if_neg hj.symm, hempty]
  have hround := afterRound_spec hn hid hothers
  have hlast : e.flushId + ofNat (n + 1) + 1 = e.flushId := by
    rw [add_assoc, BucketManager.ofNat_wrap hn, add_zero]
  have hflush : afterEmptyFlushes e.flushId (n + 2) c = slide e.flushId
      ((afterEmptyFlushes e.flushId (n + 1) c).credit (emptyEvent e.flushId)) := by
    rw [afterEmptyFlushes, hlast]
  rw [hflush] at hordered ⊢
  have hnothing : LeavesNothing (emptyEvent e.flushId).flushId
      (afterEmptyFlushes e.flushId (n + 1) c) := fun _ y => by
    rw [(hround y).2]
    exact hothers _ (fun h => absurd (sub_eq_self.1 h) (by decide)) y
  have hget : ∀ y, (emptyEvent e.flushId).get y = 0 := fun y => by cases y <;> rfl
  refine ⟨?_, hordered, total_eq_zero hordered fun j => ?_⟩
  · exact (window_flush hnothing x).trans (by rw [hget, add_zero, (hround x).1, hcounted])
  · refine (recorded_flush hnothing x j).trans ?_
    by_cases hj : e.flushId = j
    · exact (if_pos hj).trans (hget x)
    · exact (if_neg hj).trans (((hround x).2 j).trans (hothers j (Ne.symm hj) x))

end Bucket

namespace BucketManager

/-- A run of two rounds of the flush counter after which the running totals of the first of two
buckets count an event that is not there any more. -/
lemma exists_run_overwritten : ∃ calls, ∃ b₀ b₁ : Bucket, ∃ counter, run ℚ (new 2 none) calls =
        { buckets := [b₀, b₁], targetBucketCount := 2, initialized := true, structureEpoch := 0,
          globalFlushCounter := counter, enableBucketAdjustment := none } ∧
      (b₀.windowFileCount = 1 ∧ b₀.windowDataBytes = 100) ∧
      (b₁.windowFileCount = 0 ∧ b₁.windowDataBytes = 0) ∧
      b₀.flushEvents.Ordered ∧ total .dataBytes b₀.flushEvents = 0 ∧
      total .dataBytes b₁.flushEvents = 0 := by
  obtain ⟨n, hn⟩ : ∃ n, n + 2 = 2 ^ 64 := ⟨2 ^ 64 - 2, rfl⟩
  have hspec₀ := overwritten_spec hn [] [98]
    (e := ⟨ofNat (n + 1), 1, 3, 100, [97]⟩) rfl
  have hspec₁ := overwritten_spec hn [98] []
    (e := ⟨ofNat (n + 1), 0, 0, 0, []⟩) rfl
  refine ⟨[.initializeFromFirstFlush [[98]]] ++ emptyFlushes n ++ [.op (.onFlushCompleted 0
    [⟨1, 3, 100, [97], [], [98]⟩, ⟨0, 0, 0, [], [98], []⟩])] ++ emptyFlushes (n + 2),
    _, _, ofNat (n + 1) + ofNat (n + 2), ?_, ⟨(hspec₀ .fileCount).1, (hspec₀ .dataBytes).1⟩,
    ⟨(hspec₁ .fileCount).1, (hspec₁ .dataBytes).1⟩, (hspec₀ .dataBytes).2.1,
    (hspec₀ .dataBytes).2.2, (hspec₁ .dataBytes).2.2⟩
  have hfirst : run ℚ (run ℚ (new 2 none) [.initializeFromFirstFlush [[98]]])
      (emptyFlushes n) = ⟨[(ofRange [] [98]).afterEmptyFlushes 0 n,
        (ofRange [98] []).afterEmptyFlushes 0 n], 2, true, 0, 0 + ofNat n, none⟩ :=
    run_emptyFlushes ℚ rfl n
  have hid : 0 + ofNat n + 1 = ofNat (n + 1) := by
    rw [zero_add, ofNat_add]
    rfl
  have hflush : ∀ (a₀ a₁ : Bucket) (c : UInt64), run ℚ ⟨[a₀, a₁], 2, true, 0, c, none⟩
      [.op (.onFlushCompleted 0 [⟨1, 3, 100, [97], [], [98]⟩, ⟨0, 0, 0, [], [98], []⟩])] =
      ⟨[slide (c + 1) (a₀.credit ⟨c + 1, 1, 3, 100, [97]⟩),
        slide (c + 1) (a₁.credit ⟨c + 1, 0, 0, 0, []⟩)], 2, true, 0, c + 1, none⟩ :=
    fun a₀ a₁ c => onFlushCompleted_eq ⟨[a₀, a₁], 2, true, 0, c, none⟩ rfl 0
      [⟨1, 3, 100, [97], [], [98]⟩, ⟨0, 0, 0, [], [98], []⟩]
  rw [run_append, run_append, run_append, hfirst, hflush, hid]
  exact run_emptyFlushes ℚ rfl (n + 2)

/-- The merge of the two buckets recomputes the totals and drops the overwritten event. -/
theorem merge_after_wrap_drops_statistics :
    ∃ calls, ((run ℚ (new 2 none) calls).adjustAfterCompaction ℚ 1).2.totalWindow
        .dataBytes ≠ (run ℚ (new 2 none) calls).totalWindow .dataBytes := by
  obtain ⟨calls, b₀, b₁, counter, hrun, ⟨hfiles₀, hbytes₀⟩, ⟨hfiles₁, hbytes₁⟩, hordered, htotal₀,
    htotal₁⟩ := exists_run_overwritten
  refine ⟨calls, ?_⟩
  rw [hrun]
  have hdecision : compactionAdjustment ℚ ⟨[b₀, b₁], 2, true, 0, counter, none⟩ b₁ = .merge := by
    have hfiles : totalWindowFiles ⟨[b₀, b₁], 2, true, 0, counter, none⟩ = 1 := by
      simp only [totalWindowFiles, map_cons, map_nil, hfiles₀, hfiles₁]
      rfl
    have hbytes : totalWindowBytes ⟨[b₀, b₁], 2, true, 0, counter, none⟩ = 100 := by
      simp only [totalWindowBytes, map_cons, map_nil, hbytes₀, hbytes₁]
      rfl
    rw [compactionAdjustment, hfiles, hbytes, hbytes₁]
    show (if _ then _ else adjustment ℚ (3 / 2) (1 / 2) (share ℚ 0 100)
      (Double.lit 1 / Double.ofNat 2) 2) = _
    decide +kernel
  have hadjust : (adjustAfterCompaction ℚ ⟨[b₀, b₁], 2, true, 0, counter, none⟩ 1).2 =
      applyAdjustment ⟨[b₀, b₁], 2, true, 0, counter, none⟩ 1
        (compactionAdjustment ℚ ⟨[b₀, b₁], 2, true, 0, counter, none⟩ b₁) := rfl
  have hmerge : applyAdjustment ⟨[b₀, b₁], 2, true, 0, counter, none⟩ 1 .merge =
      ⟨[b₀.mergeWith b₁], 2, true, 1, counter, none⟩ := rfl
  have hmerged : (b₀.mergeWith b₁).windowDataBytes = 0 := by
    change (b₀.mergeWith b₁).window .dataBytes = 0
    refine (window_recalculateWindowStats _ _).trans ?_
    refine (total_mergeEvents hordered _ _).trans ?_
    rw [htotal₀, htotal₁, add_zero]
  rw [hadjust, hdecision, hmerge]
  simp only [totalWindow, map_cons, map_nil, window, hmerged, hbytes₀, hbytes₁]
  decide

end BucketManager

end BucketLSM
