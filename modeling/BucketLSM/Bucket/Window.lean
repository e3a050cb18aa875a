import BucketLSM.Bucket.Partition
import BucketLSM.Lib.SortedMap
import Mathlib

/-!
# The window statistics of a bucket

Every bucket keeps the events of the last `WINDOW_SIZE` flushes and, beside them, running
totals that `AddFlushEvent` and `RemoveFlushEvent` maintain and a split or a merge recomputes.
Along every run with fewer than `2^64` flushes the totals are the sums over the events, modulo
`2^64`, and the events are those of the last flushes. The flush counter then wraps to 0, where
no event expires, and the old events stay.
-/

namespace BucketLSM

open List FlushEvents BucketManager Bucket SortedMap UInt64

/-! ## Statistics -/

/-- What is counted per bucket and flush. -/
inductive Statistic
  | fileCount
  | entryCount
  | dataBytes
deriving DecidableEq, Repr

def FlushEvent.get (e : FlushEvent) : Statistic → UInt64
  | .fileCount => e.fileCount
  | .entryCount => e.entryCount
  | .dataBytes => e.dataBytes

/-- The running total of a bucket. -/
def Bucket.window (b : Bucket) : Statistic → UInt64
  | .fileCount => b.windowFileCount
  | .entryCount => b.windowEntryCount
  | .dataBytes => b.windowDataBytes

def BucketFlushResult.get (r : BucketFlushResult) : Statistic → UInt64
  | .fileCount => r.fileCount
  | .entryCount => r.entryCount
  | .dataBytes => r.dataBytes

def AccumulatedStats.get (s : AccumulatedStats) : Statistic → UInt64
  | .fileCount => s.fileCount
  | .entryCount => s.entryCount
  | .dataBytes => s.dataBytes

namespace FlushEvents

/-- The sum over the events, modulo `2^64`. -/
def total (x : Statistic) (events : FlushEvents) : UInt64 := (events.map fun p => p.2.get x).sum

/-- What the events record for one flush. -/
def recorded (x : Statistic) (id : UInt64) (events : FlushEvents) : UInt64 :=
  ((find id events).map fun e => e.get x).getD 0

/-- The order of a `std::map`. -/
def Ordered (events : FlushEvents) : Prop := events.Pairwise fun p q => p.1 < q.1

lemma find_cons (id : UInt64) (p : UInt64 × FlushEvent) (events : FlushEvents) :
    find id (p :: events) = if p.1 = id then some p.2 else find id events := by
  by_cases h : p.1 = id <;> simp [find, h]

variable {e : FlushEvent} {events : FlushEvents} {id : UInt64} {p : UInt64 × FlushEvent}

lemma mem_of_find (h : find id events = some e) : (id, e) ∈ events := by
  obtain ⟨p, hp, rfl⟩ := Option.map_eq_some_iff.1 h
  have hid := find?_some hp
  rw [decide_eq_true_iff] at hid
  exact hid ▸ mem_of_find?_eq_some hp

lemma recorded_of_ne (h : ∀ p ∈ events, p.1 ≠ id) (x : Statistic) : recorded x id events = 0 := by
  have hnone : find id events = none := by
    rw [find, Option.map_eq_none_iff, find?_eq_none]
    simpa using h
  rw [recorded, hnone]
  rfl

/-! ### Assignment -/

lemma assign_eq_put (id : UInt64) (e : FlushEvent) (events : FlushEvents) :
    assign id e events = put (·.1.toNat) (id, e) events := by
  fun_induction assign id e events with
  | case1 => rfl
  | case2 i f events hlt => exact (if_pos hlt).symm
  | case3 f events hlt => simp [SortedMap.put]
  | case4 i f events hlt hne ih =>
    have hlt' : i < id := UInt64.lt_of_le_of_ne (UInt64.not_lt.1 hlt) (Ne.symm hne)
    rw [ih]
    exact ((if_neg hlt).trans (if_pos hlt')).symm

lemma Ordered.ascending (h : events.Ordered) : Ascending (·.1.toNat) events := h

lemma ordered_assign (h : events.Ordered) (id : UInt64) (e : FlushEvent) :
    Ordered (assign id e events) := by
  rw [assign_eq_put]
  exact h.ascending.put (id, e)

lemma find_assign (id : UInt64) (e : FlushEvent) (events : FlushEvents) (j : UInt64) :
    find j (assign id e events) = if id = j then some e else find j events := by
  fun_induction assign id e events with
  | case1 => exact find_cons ..
  | case2 => exact find_cons ..
  | case3 =>
    rw [find_cons, find_cons]
    split_ifs <;> rfl
  | case4 i f events hlt hne ih =>
    rw [find_cons, find_cons, ih]
    grind

lemma recorded_assign (x : Statistic) (id : UInt64) (e : FlushEvent) (events : FlushEvents)
    (j : UInt64) :
    recorded x j (assign id e events) = if id = j then e.get x else recorded x j events := by
  rw [recorded, find_assign]
  by_cases h : id = j
  · rw [if_pos h, if_pos h]
    rfl
  · rw [if_neg h, if_neg h]
    rfl

/-- A flush newer than all others comes last. -/
lemma Ordered.assign_of_lt (h : events.Ordered) (hlt : ∀ p ∈ events, p.1 < id) (e : FlushEvent) :
    assign id e events = events ++ [(id, e)] := by
  have hlt' : ∀ p ∈ events, p.1.toNat < id.toNat := hlt
  rw [assign_eq_put, put_eq h.ascending, filter_eq_self.2, filter_eq_nil_iff.2]
  · simpa using fun i f hp => (hlt' (i, f) hp).le
  · simpa using hlt'

/-! ### Totals -/

lemma total_cons (x : Statistic) (p : UInt64 × FlushEvent) (events : FlushEvents) :
    total x (p :: events) = p.2.get x + total x events := by
  rw [total, map_cons, sum_cons]
  rfl

lemma total_append (x : Statistic) (events rest : FlushEvents) :
    total x (events ++ rest) = total x events + total x rest := by
  rw [total, map_append, sum_append]
  rfl

lemma total_filter (events : FlushEvents) (right : UInt64 × FlushEvent → Bool) (x : Statistic) :
    total x (events.filter fun p => !right p) + total x (events.filter right) =
      total x events := by
  rw [add_comm, ← total_append]
  exact ((filter_append_perm right events).map _).sum_eq

/-- In the order of the map there is one event for a flush. -/
lemma filter_eq_find (h : events.Ordered) (id : UInt64) :
    events.filter (fun p => p.1 = id) = ((find id events).map (id, ·)).toList := by
  induction events with
  | nil => rfl
  | cons p events ih =>
    obtain ⟨hhead, htail⟩ := pairwise_cons.1 h
    rw [find_cons]
    split_ifs with hid
    · subst hid
      have hrest : events.filter (fun q => q.1 = p.1) = [] := by
        simpa using fun i f hq => (UInt64.ne_of_lt (hhead (i, f) hq)).symm
      simp [hrest]
    · rw [filter_cons_of_neg (by simpa using hid), ih htail]

lemma total_filter_eq (h : events.Ordered) (x : Statistic) (id : UInt64) :
    total x (events.filter fun p => p.1 = id) = recorded x id events := by
  rw [filter_eq_find h, recorded]
  cases find id events <;> simp [total]

/-- An erased flush takes what was recorded for it along. -/
lemma total_erase (h : events.Ordered) (x : Statistic) (id : UInt64) :
    total x (erase id events) + recorded x id events = total x events := by
  rw [← total_filter_eq h, ← total_filter events fun p => p.1 = id]
  simp [erase]

/-- An assignment replaces what was recorded for the flush. -/
lemma total_assign (h : events.Ordered) (x : Statistic) (id : UInt64) (e : FlushEvent) :
    total x (assign id e events) + recorded x id events = total x events + e.get x := by
  have hperm : assign id e events ~ (id, e) :: erase id events := by
    simpa [assign_eq_put, erase, UInt64.toNat_inj] using SortedMap.perm_put (a := (id, e)) h.ascending
  have hassign : total x (assign id e events) = e.get x + total x (erase id events) :=
    (hperm.map _).sum_eq
  rw [hassign, add_assoc, total_erase h, add_comm]

/-- The sum of 64-bit numbers is the sum of their values modulo `2^64`. -/
lemma toNat_sum (l : List UInt64) : l.sum.toNat = (l.map toNat).sum % 2 ^ 64 := by
  induction l with
  | nil => rfl
  | cons a l ih =>
    rw [sum_cons, map_cons, sum_cons, UInt64.toNat_add, ih, Nat.add_mod_mod]

/-- An event counts no more than all of them together, if their sum fits in 64 bits. -/
lemma get_le_total (h : find id events = some e) (x : Statistic)
    (hfits : (events.map fun p => (p.2.get x).toNat).sum < 2 ^ 64) : e.get x ≤ total x events := by
  have hmem := mem_of_find h
  rw [le_iff_toNat_le, total, toNat_sum, map_map]
  have hmod : (events.map (toNat ∘ fun p => p.2.get x)).sum % 2 ^ 64 =
      (events.map fun p => (p.2.get x).toNat).sum := Nat.mod_eq_of_lt hfits
  rw [hmod]
  exact le_sum_of_mem (mem_map_of_mem (f := fun p => (p.2.get x).toNat) hmem)

/-! ### Merged events -/

lemma mergeEvents_cons (left : FlushEvents) (p : UInt64 × FlushEvent) (right : FlushEvents) :
    ∃ e, mergeEvents left (p :: right) = mergeEvents (assign p.1 e left) right ∧
      ∀ x, e.get x = recorded x p.1 left + p.2.get x := by
  unfold mergeEvents recorded
  rw [foldl_cons]
  cases h : find p.1 left with
  | none => exact ⟨p.2, rfl, fun x => (zero_add _).symm⟩
  | some e => exact ⟨_, rfl, fun x => by cases x <;> rfl⟩

lemma ordered_mergeEvents {left : FlushEvents} (h : left.Ordered) (right : FlushEvents) :
    Ordered (mergeEvents left right) := by
  induction right generalizing left with
  | nil => exact h
  | cons p right ih =>
    obtain ⟨e, heq, -⟩ := mergeEvents_cons left p right
    rw [heq]
    exact ih (ordered_assign h _ _)

/-- The flushes of the merged events are those of the two sides. -/
lemma mem_mergeEvents {left right : FlushEvents} (hleft : left.Ordered)
    (h : p ∈ mergeEvents left right) :
    ∃ q ∈ left ++ right, q.1 = p.1 := by
  induction right generalizing left with
  | nil => exact ⟨p, mem_append_left _ h, rfl⟩
  | cons r right ih =>
    obtain ⟨e, heq, -⟩ := mergeEvents_cons left r right
    rw [heq] at h
    obtain ⟨q, hq, hid⟩ := ih (ordered_assign hleft _ _) h
    rcases mem_append.1 hq with hq | hq
    · rw [assign_eq_put, mem_put hleft.ascending] at hq
      rcases hq with rfl | ⟨hq, -⟩
      · exact ⟨r, by simp, hid⟩
      · exact ⟨q, by simp [hq], hid⟩
    · exact ⟨q, by simp [hq], hid⟩

end FlushEvents

/-! ## Buckets -/

/-- After `flushes` flushes the events are those of flushes in the window, and the running
totals are their sums. -/
structure Bucket.Windowed (flushes : ℕ) (b : Bucket) : Prop where
  ordered : b.flushEvents.Ordered
  window_eq : ∀ x, b.window x = total x b.flushEvents
  recent : ∀ p ∈ b.flushEvents, 0 < p.1.toNat ∧ flushes < p.1.toNat + windowSize.toNat ∧
    p.1.toNat ≤ flushes

namespace Bucket

lemma windowed_ofRange (flushes : ℕ) (lo hi : Slice) : (ofRange lo hi).Windowed flushes where
  ordered := .nil
  window_eq x := by cases x <;> rfl
  recent p hp := absurd hp not_mem_nil

lemma window_recalculateWindowStats (b : Bucket) (x : Statistic) :
    b.recalculateWindowStats.window x = total x b.flushEvents := by
  cases x <;> rfl

lemma window_addFlushEvent (b : Bucket) (id files entries bytes : UInt64) (key : Slice)
    (x : Statistic) : (b.addFlushEvent id files entries bytes key).window x =
      b.window x + FlushEvent.get ⟨id, files, entries, bytes, key⟩ x := by
  cases x <;> rfl

lemma window_removeFlushEvent (b : Bucket) (id : UInt64) (x : Statistic) :
    (b.removeFlushEvent id).window x = b.window x - recorded x id b.flushEvents := by
  unfold removeFlushEvent recorded
  cases find id b.flushEvents with
  | none => exact (sub_zero _).symm
  | some e => cases x <;> rfl

lemma flushEvents_removeFlushEvent (b : Bucket) (id : UInt64) :
    (b.removeFlushEvent id).flushEvents = erase id b.flushEvents := by
  unfold removeFlushEvent
  cases h : find id b.flushEvents with
  | some e => rfl
  | none =>
    rw [FlushEvents.find, Option.map_eq_none_iff, find?_eq_none] at h
    refine (filter_eq_self.2 fun p hp => ?_).symm
    simpa using h p hp

variable {b : Bucket} {flushes : ℕ}

section

variable (h : b.Windowed flushes)

include h

/-- The events of some of the flushes, with the totals recomputed, are windowed again. -/
lemma Windowed.recalculate {b' : Bucket} (hsub : b'.flushEvents.Sublist b.flushEvents) :
    b'.recalculateWindowStats.Windowed flushes where
  ordered := h.ordered.sublist hsub
  window_eq := b'.window_recalculateWindowStats
  recent p hp := h.recent p (hsub.subset hp)

lemma Windowed.splitLeft :
    b.splitLeft.Windowed flushes := h.recalculate filter_sublist

lemma Windowed.splitRight :
    b.splitRight.Windowed flushes := h.recalculate filter_sublist

lemma Windowed.mergeWith {b' : Bucket} (h' : b'.Windowed flushes) :
    (b.mergeWith b').Windowed flushes where
  ordered := ordered_mergeEvents h.ordered _
  window_eq := window_recalculateWindowStats _
  recent p hp := by
    obtain ⟨q, hq, hid⟩ := mem_mergeEvents h.ordered hp
    rw [← hid]
    rcases mem_append.1 hq with hq | hq
    · exact h.recent q hq
    · exact h'.recent q hq

end

/-- `AddFlushEvent` with the fields of an event. -/
def credit (b : Bucket) (e : FlushEvent) : Bucket :=
  b.addFlushEvent e.flushId e.fileCount e.entryCount e.dataBytes e.medianKey

/-- The window of `OnFlushCompleted` moves on to the flush `id`. -/
def slide (id : UInt64) (b : Bucket) : Bucket :=
  if windowSize < id then b.removeFlushEvent (id - windowSize) else b

lemma range_flush (b : Bucket) (id : UInt64) (e : FlushEvent) :
    (slide id (b.credit e)).range = b.range := by
  unfold slide
  split_ifs
  · exact range_removeFlushEvent _ _
  · rfl

/-- A flush event stays when the window moves on to the flush `id`. -/
def Stays (id : UInt64) (p : UInt64 × FlushEvent) : Prop :=
  windowSize < id → p.1 ≠ id - windowSize

instance (id : UInt64) : DecidablePred (Stays id) := fun _ => inferInstanceAs (Decidable (_ → _))

lemma flushEvents_slide (id : UInt64) (b : Bucket) :
    (slide id b).flushEvents = b.flushEvents.filter (Stays id) := by
  unfold slide
  by_cases h : windowSize < id
  · rw [if_pos h, flushEvents_removeFlushEvent, erase]
    exact filter_congr fun p _ => by simp [Stays, h]
  · rw [if_neg h]
    exact (filter_eq_self.2 fun p _ => by simp [Stays, h]).symm

/-- The window lets no flush go but the one `windowSize` before. -/
lemma find_slide {id j : UInt64} (hj : windowSize < id → j ≠ id - windowSize) (b : Bucket) :
    find j (slide id b).flushEvents = find j b.flushEvents := by
  unfold slide
  split_ifs with hlt
  · rw [flushEvents_removeFlushEvent, FlushEvents.erase, FlushEvents.find, Keyed.find?_filter_ne,
      if_neg (hj hlt), FlushEvents.find]
  · rfl

lemma window_slide {id : UInt64} (hordered : b.flushEvents.Ordered) (x : Statistic)
    (h : b.window x = total x b.flushEvents) :
    (slide id b).window x = total x (slide id b).flushEvents := by
  unfold slide
  split_ifs with hlt
  · rw [window_removeFlushEvent, flushEvents_removeFlushEvent, h, sub_eq_iff_eq_add]
    exact (total_erase hordered x _).symm
  · exact h

section Flush

variable {flushes : ℕ} {b : Bucket} {e : FlushEvent}

section

variable (h : b.Windowed flushes)

include h

lemma Windowed.lt_next (hid : e.flushId.toNat = flushes + 1) :
    ∀ p ∈ b.flushEvents, p.1 < e.flushId := by
  intro p hp
  have := (h.recent p hp).2.2
  rw [lt_iff_toNat_lt]
  omega

lemma Windowed.flushEvents_credit (hid : e.flushId.toNat = flushes + 1) :
    (b.credit e).flushEvents = b.flushEvents ++ [(e.flushId, e)] :=
  h.ordered.assign_of_lt (h.lt_next hid) e

lemma Windowed.window_credit (hid : e.flushId.toNat = flushes + 1)
    (x : Statistic) : (b.credit e).window x = FlushEvents.total x (b.credit e).flushEvents := by
  have hnone := FlushEvents.recorded_of_ne (fun p hp => UInt64.ne_of_lt (h.lt_next hid p hp)) x
  have htotal := FlushEvents.total_assign h.ordered x e.flushId e
  rw [hnone, add_zero, ← h.window_eq x] at htotal
  exact (window_addFlushEvent b _ _ _ _ _ x).trans htotal.symm

/-- A flush adds its event and lets the one that leaves the window go. -/
lemma Windowed.flushEvents_flush (hid : e.flushId.toNat = flushes + 1) :
    (slide e.flushId (b.credit e)).flushEvents =
      b.flushEvents.filter (Stays e.flushId) ++ [(e.flushId, e)] := by
  have hstays : Stays e.flushId (e.flushId, e) := by
    intro hlt heq
    have hnat : e.flushId.toNat = _ := congrArg UInt64.toNat heq
    rw [UInt64.toNat_sub_of_le _ _ (UInt64.le_of_lt hlt)] at hnat
    have hsize : windowSize.toNat = 10 := rfl
    omega
  rw [flushEvents_slide, h.flushEvents_credit hid, filter_append,
    filter_cons_of_pos (by simpa using hstays), filter_nil]

lemma Windowed.flush (hid : e.flushId.toNat = flushes + 1) :
    (slide e.flushId (b.credit e)).Windowed (flushes + 1) where
  ordered := by
    rw [flushEvents_slide]
    exact (ordered_assign h.ordered _ _).sublist filter_sublist
  window_eq x := window_slide (ordered_assign h.ordered _ _) x (h.window_credit hid x)
  recent p hp := by
    have hsize : windowSize.toNat = 10 := rfl
    rw [h.flushEvents_flush hid, mem_append, mem_filter, mem_singleton] at hp
    rcases hp with ⟨hmem, hstays⟩ | rfl
    · obtain ⟨hpos, hlow, hhigh⟩ := h.recent p hmem
      refine ⟨hpos, ?_, by omega⟩
      -- only the flush that leaves the window would be too old
      by_contra hold
      have hlt : windowSize < e.flushId := by
        rw [UInt64.lt_iff_toNat_lt]
        omega
      refine of_decide_eq_true hstays hlt (UInt64.toNat_inj.1 ?_)
      rw [UInt64.toNat_sub_of_le _ _ (UInt64.le_of_lt hlt)]
      omega
    · have hid' : (e.flushId, e).1.toNat = flushes + 1 := hid
      omega

end

end Flush

end Bucket

/-! ## What a call does to the buckets -/

/-- The event a result stands for on the fast path. -/
def BucketFlushResult.event (id : UInt64) (r : BucketFlushResult) : FlushEvent :=
  ⟨id, r.fileCount, r.entryCount, r.dataBytes, r.medianKey⟩

/-- The event the slow path makes of what a bucket has accumulated. -/
def AccumulatedStats.event (id : UInt64) (s : AccumulatedStats) : FlushEvent :=
  ⟨id, s.fileCount, s.entryCount, s.dataBytes, medianOf s.medianKeys⟩

namespace BucketManager

/-- What each bucket has accumulated after the first phase of the slow path. -/
def accumulated (m : BucketManager) (results : List BucketFlushResult) : List AccumulatedStats :=
  results.foldl m.accumulate (replicate m.buckets.length ⟨0, 0, 0, []⟩)

/-- `OnFlushCompleted` takes its fast path. -/
def FastPath (m : BucketManager) (snapshotEpoch : UInt64) (results : List BucketFlushResult) :
    Prop :=
  snapshotEpoch = m.structureEpoch ∧ results.length = m.buckets.length

instance (m : BucketManager) (epoch : UInt64) (results : List BucketFlushResult) :
    Decidable (m.FastPath epoch results) := inferInstanceAs (Decidable (_ ∧ _))

/-- The event each bucket gets from a flush. -/
def flushedEvents (m : BucketManager) (id snapshotEpoch : UInt64)
    (results : List BucketFlushResult) : List FlushEvent :=
  if m.FastPath snapshotEpoch results then results.map (BucketFlushResult.event id)
  else (m.accumulated results).map (AccumulatedStats.event id)

variable (m : BucketManager)

lemma recordFlush_eq (id epoch : UInt64) (results : List BucketFlushResult) :
    m.recordFlush id epoch results =
      zipWith credit m.buckets (m.flushedEvents id epoch results) := by
  unfold recordFlush flushedEvents
  by_cases h : m.FastPath epoch results
  · rw [if_pos h, zipWith_map_right]
    exact if_pos h
  · rw [if_neg h, zipWith_map_right]
    exact if_neg h

lemma length_flushedEvents (id epoch : UInt64) (results : List BucketFlushResult) :
    (m.flushedEvents id epoch results).length = m.buckets.length := by
  unfold flushedEvents
  split_ifs with h
  · rw [length_map, h.2]
  · rw [length_map, accumulated, length_foldl_accumulate, length_replicate]

variable {results : List BucketFlushResult}

lemma flushId_of_mem_flushedEvents {id epoch : UInt64} {e : FlushEvent}
    (h : e ∈ m.flushedEvents id epoch results) : e.flushId = id := by
  unfold flushedEvents at h
  split_ifs at h
  all_goals
    obtain ⟨r, -, rfl⟩ := mem_map.1 h
    rfl

section

variable (hinit : m.initialized = true)

include hinit

lemma onFlushCompleted_eq (epoch : UInt64)
    (results : List BucketFlushResult) :
    m.onFlushCompleted epoch results = { m with
      buckets := (m.recordFlush (m.globalFlushCounter + 1) epoch results).map
        (slide (m.globalFlushCounter + 1))
      globalFlushCounter := m.globalFlushCounter + 1 } := by
  rw [onFlushCompleted, if_pos hinit]
  dsimp only
  by_cases h : windowSize < m.globalFlushCounter + 1
  · rw [if_pos h, map_congr_left fun b _ => (if_pos h).symm]
    rfl
  · have hid : (m.recordFlush (m.globalFlushCounter + 1) epoch results).map
        (slide (m.globalFlushCounter + 1)) =
        m.recordFlush (m.globalFlushCounter + 1) epoch results :=
      map_id'' (fun b => if_neg h) _
    rw [if_neg h, hid]

lemma globalFlushCounter_onFlushCompleted (epoch : UInt64)
    (results : List BucketFlushResult) :
    (m.onFlushCompleted epoch results).globalFlushCounter = m.globalFlushCounter + 1 := by
  rw [m.onFlushCompleted_eq hinit]

lemma buckets_onFlushCompleted (epoch : UInt64)
    (results : List BucketFlushResult) :
    (m.onFlushCompleted epoch results).buckets =
      (m.recordFlush (m.globalFlushCounter + 1) epoch results).map
        (slide (m.globalFlushCounter + 1)) := by
  rw [m.onFlushCompleted_eq hinit]

end

lemma exists_append_of_getElem? {α : Type} {l : List α} {i : ℕ} {a : α}
    (h : l[i]? = some a) : ∃ before after, l = before ++ a :: after ∧ before.length = i := by
  obtain ⟨hlt, rfl⟩ := List.getElem?_eq_some_iff.1 h
  refine ⟨l.take i, l.drop (i + 1), ?_, length_take_of_le hlt.le⟩
  rw [getElem_cons_drop, take_append_drop]

/-- A split replaces a bucket by its two halves, or there is no such bucket. -/
lemma splitBucket_cases (idx : ℕ) :
    m.splitBucket idx = m ∨ ∃ before b after, m.buckets = before ++ b :: after ∧
      m.splitBucket idx = { m with
        buckets := before ++ b.splitLeft :: b.splitRight :: after
        structureEpoch := m.structureEpoch + 1 } := by
  unfold splitBucket
  cases hb : m.buckets[idx]? with
  | none => exact Or.inl rfl
  | some b =>
    obtain ⟨before, after, heq, rfl⟩ := exists_append_of_getElem? hb
    refine Or.inr ⟨before, b, after, heq, ?_⟩
    have hset : (m.buckets.set before.length b.splitLeft).insertIdx (before.length + 1)
        b.splitRight = before ++ b.splitLeft :: b.splitRight :: after := by
      rw [heq]
      clear heq hb
      induction before with
      | nil => rfl
      | cons c before ih => simpa using ih
    dsimp only
    rw [hset]

/-- A merge replaces two neighbours by one bucket, or there are no two buckets. -/
lemma mergeWithAdjacentBucket_cases (idx : ℕ) :
    m.mergeWithAdjacentBucket idx = m ∨ ∃ before l r after,
      m.buckets = before ++ l :: r :: after ∧
      m.mergeWithAdjacentBucket idx = { m with
        buckets := before ++ l.mergeWith r :: after
        structureEpoch := m.structureEpoch + 1 } := by
  unfold mergeWithAdjacentBucket
  by_cases hlen : idx < m.buckets.length ∧ 1 < m.buckets.length
  · rw [if_pos hlen]
    dsimp only
    cases hl : m.buckets[m.mergeLeft idx]? with
    | none => exact Or.inl rfl
    | some l =>
      cases hr : m.buckets[m.mergeLeft idx + 1]? with
      | none => exact Or.inl rfl
      | some r =>
        obtain ⟨before, rest, heq, hbefore⟩ := exists_append_of_getElem? hl
        obtain ⟨after, rfl⟩ : ∃ after, rest = r :: after := by
          rw [heq, ← hbefore, getElem?_append_right (Nat.le_add_right _ 1),
            Nat.add_sub_cancel_left, getElem?_cons_succ] at hr
          cases rest with
          | nil => cases hr
          | cons c after => exact ⟨after, by rw [Option.some.inj hr]⟩
        refine Or.inr ⟨before, l, r, after, heq, ?_⟩
        have hset : (m.buckets.set before.length (l.mergeWith r)).eraseIdx (before.length + 1) =
            before ++ l.mergeWith r :: after := by
          rw [heq]
          clear heq hl hr hbefore
          induction before with
          | nil => rfl
          | cons c before ih => simpa using ih
        dsimp only
        rw [← hbefore, hset]
  · exact Or.inl (if_neg hlen)

variable {P : BucketManager → Prop} {m}

/-- What a split and a merge keep, an adjustment keeps. -/
lemma applyAdjustment_preserves (hsplit : ∀ m idx, P m → P (splitBucket m idx))
    (hmerge : ∀ m idx, P m → P (mergeWithAdjacentBucket m idx)) (h : P m) (idx : ℕ)
    (a : Adjustment) : P (m.applyAdjustment idx a) := by
  cases a with
  | split => exact hsplit m idx h
  | merge => exact hmerge m idx h
  | keep => exact h

variable (D : Type) [Double D]

lemma adjustAfterCompaction_preserves (hsplit : ∀ m idx, P m → P (splitBucket m idx))
    (hmerge : ∀ m idx, P m → P (mergeWithAdjacentBucket m idx)) (h : P m) (idx : ℤ) :
    P (m.adjustAfterCompaction D idx).2 := by
  unfold adjustAfterCompaction
  split_ifs
  · exact h
  · exact h
  · cases m.buckets[idx.toNat]? with
    | none => exact h
    | some b => exact applyAdjustment_preserves hsplit hmerge h _ _

lemma adjustBucketsInRange_preserves (hsplit : ∀ m idx, P m → P (splitBucket m idx))
    (hmerge : ∀ m idx, P m → P (mergeWithAdjacentBucket m idx)) (h : P m) (lo hi : Slice) :
    P (m.adjustBucketsInRange D lo hi).2 := by
  unfold adjustBucketsInRange
  split_ifs
  · exact h
  · have hrounds : ∀ (idxs : List ℕ) (s : Bool × BucketManager), P s.2 →
        P (idxs.foldl (adjustRound D m.totalWindowFiles m.totalWindowBytes) s).2 := by
      intro idxs
      induction idxs with
      | nil => exact fun s hs => hs
      | cons idx idxs ih =>
        intro s hs
        refine ih _ ?_
        unfold adjustRound
        cases s.2.buckets[idx]? with
        | none => exact hs
        | some b => exact applyAdjustment_preserves hsplit hmerge hs _ _
    exact hrounds _ _ h

/-! ## The invariant -/

/-- The buckets are windowed after as many flushes as the counter says. -/
def Windowed (m : BucketManager) : Prop :=
  ∀ b ∈ m.buckets, b.Windowed m.globalFlushCounter.toNat

lemma windowed_new (target : ℤ) (enable : Option Bool) : (new target enable).Windowed :=
  fun _ hb => absurd hb not_mem_nil

lemma Windowed.initializeFromFirstFlush (h : m.Windowed) (points : List Slice) :
    (m.initializeFromFirstFlush points).Windowed := by
  unfold BucketManager.initializeFromFirstFlush
  split_ifs
  · exact h
  · intro b hb
    obtain ⟨r, -, rfl⟩ := mem_map.1 hb
    exact windowed_ofRange _ _ _

lemma Windowed.splitBucket (h : m.Windowed) (idx : ℕ) : (m.splitBucket idx).Windowed := by
  rcases m.splitBucket_cases idx with heq | ⟨before, b, after, hbuckets, heq⟩
  · rw [heq]
    exact h
  · rw [heq]
    have hold : ∀ c ∈ before ++ b :: after, c.Windowed m.globalFlushCounter.toNat :=
      fun c hc => h c (hbuckets ▸ hc)
    intro c hc
    simp only [mem_append, mem_cons] at hc hold
    rcases hc with hc | rfl | rfl | hc
    · exact hold c (Or.inl hc)
    · exact (hold b (Or.inr (Or.inl rfl))).splitLeft
    · exact (hold b (Or.inr (Or.inl rfl))).splitRight
    · exact hold c (Or.inr (Or.inr hc))

lemma Windowed.mergeWithAdjacentBucket (h : m.Windowed) (idx : ℕ) :
    (m.mergeWithAdjacentBucket idx).Windowed := by
  rcases m.mergeWithAdjacentBucket_cases idx with heq | ⟨before, l, r, after, hbuckets, heq⟩
  · rw [heq]
    exact h
  · rw [heq]
    have hold : ∀ c ∈ before ++ l :: r :: after, c.Windowed m.globalFlushCounter.toNat :=
      fun c hc => h c (hbuckets ▸ hc)
    intro c hc
    simp only [mem_append, mem_cons] at hc hold
    rcases hc with hc | rfl | hc
    · exact hold c (Or.inl hc)
    · exact (hold l (Or.inr (Or.inl rfl))).mergeWith (hold r (Or.inr (Or.inr (Or.inl rfl))))
    · exact hold c (Or.inr (Or.inr (Or.inr hc)))

lemma toNat_add_one {c : UInt64} (h : c.toNat + 1 < 2 ^ 64) : (c + 1).toNat = c.toNat + 1 := by
  rw [UInt64.toNat_add]
  exact Nat.mod_eq_of_lt h

/-- A credited bucket of `OnFlushCompleted` before the window moves on. -/
lemma exists_of_mem_recordFlush {id epoch : UInt64} {b : Bucket}
    (hb : b ∈ m.recordFlush id epoch results) :
    ∃ b₀ ∈ m.buckets, ∃ e : FlushEvent, e.flushId = id ∧ b = b₀.credit e := by
  rw [recordFlush_eq] at hb
  obtain ⟨i, hi, rfl⟩ := mem_iff_getElem.1 hb
  rw [getElem_zipWith]
  rw [length_zipWith] at hi
  exact ⟨_, getElem_mem _, _, m.flushId_of_mem_flushedEvents (getElem_mem _), rfl⟩

lemma Windowed.onFlushCompleted (h : m.Windowed) (hwrap : m.globalFlushCounter.toNat + 1 < 2 ^ 64)
    (epoch : UInt64) (results : List BucketFlushResult) :
    (m.onFlushCompleted epoch results).Windowed := by
  by_cases hinit : m.initialized = true
  · intro b hb
    rw [m.globalFlushCounter_onFlushCompleted hinit, toNat_add_one hwrap]
    rw [m.buckets_onFlushCompleted hinit] at hb
    obtain ⟨c, hc, rfl⟩ := mem_map.1 hb
    obtain ⟨b₀, hb₀, e, hid, rfl⟩ := exists_of_mem_recordFlush hc
    rw [← hid]
    exact (h b₀ hb₀).flush (by rw [hid, toNat_add_one hwrap])
  · rw [BucketManager.onFlushCompleted, if_neg hinit]
    exact h

end BucketManager

/-! ## Runs -/

/-- A call of a method of the manager that changes it. -/
inductive ManagerCall
  | initializeFromFirstFlush (splitPoints : List Slice)
  | op (method : ManagerOp)

namespace ManagerCall

variable (D : Type) [Double D]

/-- The effect of a call. -/
def apply (m : BucketManager) : ManagerCall → BucketManager
  | .initializeFromFirstFlush points => m.initializeFromFirstFlush points
  | .op method => method.apply D m

/-- The manager after the calls. -/
def run (m : BucketManager) (calls : List ManagerCall) : BucketManager := calls.foldl (apply D) m

lemma run_append (m : BucketManager) (calls calls' : List ManagerCall) :
    run D m (calls ++ calls') = run D (run D m calls) calls' := foldl_append

/-- The call reports a flush. -/
def isFlush : ManagerCall → Bool
  | .op (.onFlushCompleted _ _) => true
  | _ => false

/-- The number of flushes reported. -/
def flushCount (calls : List ManagerCall) : ℕ := calls.countP isFlush

end ManagerCall

namespace BucketManager

variable (D : Type) [Double D] {m : BucketManager}

/-- Two managers that differ in the buckets and the structure epoch only. -/
def SameButBuckets (m m' : BucketManager) : Prop :=
  ∃ buckets structureEpoch, m' = { m with buckets, structureEpoch }

variable {m' : BucketManager}

lemma SameButBuckets.splitBucket (h : m.SameButBuckets m') (idx : ℕ) :
    m.SameButBuckets (m'.splitBucket idx) := by
  obtain ⟨buckets, epoch, rfl⟩ := h
  rcases splitBucket_cases { m with buckets, structureEpoch := epoch } idx with
    heq | ⟨_, _, _, -, heq⟩
  all_goals exact ⟨_, _, heq⟩

lemma SameButBuckets.mergeWithAdjacentBucket (h : m.SameButBuckets m') (idx : ℕ) :
    m.SameButBuckets (m'.mergeWithAdjacentBucket idx) := by
  obtain ⟨buckets, epoch, rfl⟩ := h
  rcases mergeWithAdjacentBucket_cases { m with buckets, structureEpoch := epoch }
    idx with heq | ⟨_, _, _, _, -, heq⟩
  all_goals exact ⟨_, _, heq⟩

lemma sameButBuckets_adjustAfterCompaction (m : BucketManager) (idx : ℤ) :
    m.SameButBuckets (m.adjustAfterCompaction D idx).2 :=
  adjustAfterCompaction_preserves D (fun _ idx h => h.splitBucket idx)
    (fun _ idx h => h.mergeWithAdjacentBucket idx) ⟨_, _, rfl⟩ idx

lemma sameButBuckets_adjustBucketsInRange (m : BucketManager) (lo hi : Slice) :
    m.SameButBuckets (m.adjustBucketsInRange D lo hi).2 :=
  adjustBucketsInRange_preserves D (fun _ idx h => h.splitBucket idx)
    (fun _ idx h => h.mergeWithAdjacentBucket idx) ⟨_, _, rfl⟩ lo hi

lemma SameButBuckets.globalFlushCounter_eq (h : m.SameButBuckets m') :
    m'.globalFlushCounter = m.globalFlushCounter := by
  obtain ⟨_, _, rfl⟩ := h
  rfl

lemma SameButBuckets.initialized_eq (h : m.SameButBuckets m') :
    m'.initialized = m.initialized := by
  obtain ⟨_, _, rfl⟩ := h
  rfl

lemma Windowed.adjustAfterCompaction (h : m.Windowed) (idx : ℤ) :
    (m.adjustAfterCompaction D idx).2.Windowed :=
  adjustAfterCompaction_preserves D (fun _ idx h => h.splitBucket idx)
    (fun _ idx h => h.mergeWithAdjacentBucket idx) h idx

lemma Windowed.adjustBucketsInRange (h : m.Windowed) (lo hi : Slice) :
    (m.adjustBucketsInRange D lo hi).2.Windowed :=
  adjustBucketsInRange_preserves D (fun _ idx h => h.splitBucket idx)
    (fun _ idx h => h.mergeWithAdjacentBucket idx) h lo hi

/-- A call keeps the invariant while the flush counter does not wrap, and counts a flush. -/
lemma Windowed.apply {n : ℕ} (h : m.Windowed) (hn : m.globalFlushCounter.toNat ≤ n)
    (call : ManagerCall) (hwrap : n + (if call.isFlush then 1 else 0) < 2 ^ 64) :
    (call.apply D m).Windowed ∧
      (call.apply D m).globalFlushCounter.toNat ≤ n + if call.isFlush then 1 else 0 := by
  cases call with
  | initializeFromFirstFlush points =>
    refine ⟨h.initializeFromFirstFlush points, ?_⟩
    show (BucketManager.initializeFromFirstFlush m points).globalFlushCounter.toNat ≤ n
    unfold BucketManager.initializeFromFirstFlush
    split_ifs <;> exact hn
  | op method =>
    cases method with
    | adjustAfterCompaction idx =>
      exact ⟨h.adjustAfterCompaction D idx,
        (m.sameButBuckets_adjustAfterCompaction D idx).globalFlushCounter_eq.symm ▸ hn⟩
    | adjustBucketsInRange lo hi =>
      exact ⟨h.adjustBucketsInRange D lo hi,
        (m.sameButBuckets_adjustBucketsInRange D lo hi).globalFlushCounter_eq.symm ▸ hn⟩
    | onFlushCompleted epoch results =>
      have hwrap' : m.globalFlushCounter.toNat + 1 < 2 ^ 64 :=
        lt_of_le_of_lt (Nat.add_le_add_right hn 1) hwrap
      refine ⟨h.onFlushCompleted hwrap' epoch results, ?_⟩
      show (BucketManager.onFlushCompleted m epoch results).globalFlushCounter.toNat ≤ n + 1
      by_cases hinit : m.initialized = true
      · rw [m.globalFlushCounter_onFlushCompleted hinit, toNat_add_one hwrap']
        omega
      · rw [BucketManager.onFlushCompleted, if_neg hinit]
        omega

/-- The invariant holds after every run of fewer than `2^64` flushes. -/
lemma Windowed.run (calls : List ManagerCall) {n : ℕ} (h : m.Windowed)
    (hn : m.globalFlushCounter.toNat ≤ n)
    (hwrap : n + ManagerCall.flushCount calls < 2 ^ 64) :
    (ManagerCall.run D m calls).Windowed := by
  induction calls generalizing m n with
  | nil => exact h
  | cons call calls ih =>
    rw [ManagerCall.flushCount, countP_cons, Nat.add_comm (countP _ _),
      ← Nat.add_assoc] at hwrap
    obtain ⟨hnext, hcount⟩ := h.apply D hn call (by omega)
    exact ih hnext hcount hwrap

/-- After every run of fewer than `2^64` flushes the running totals are the sums over the events
of the window, and when an event leaves it nothing is subtracted from a smaller total, if the
sum fits in 64 bits. -/
theorem window_statistics_match (target : ℤ) (enable : Option Bool) (calls : List ManagerCall)
    (hflushes : ManagerCall.flushCount calls < 2 ^ 64) :
    let m := ManagerCall.run D (new target enable) calls
    (∀ b ∈ m.buckets, (∀ x, b.window x = total x b.flushEvents) ∧
      ∀ p ∈ b.flushEvents,
        (m.globalFlushCounter.toNat : ℤ) - windowSize.toNat < p.1.toNat ∧
          p.1 ≤ m.globalFlushCounter) ∧
    ∀ epoch results, windowSize < m.globalFlushCounter + 1 →
      ∀ b ∈ m.recordFlush (m.globalFlushCounter + 1) epoch results, ∀ e,
        find (m.globalFlushCounter + 1 - windowSize) b.flushEvents = some e →
        ∀ x, (b.flushEvents.map fun p => (p.2.get x).toNat).sum < 2 ^ 64 →
          e.get x ≤ b.window x := by
  intro m
  have hm : m.Windowed :=
    (windowed_new target enable).run D calls (Nat.le_refl _) (by simpa [new] using hflushes)
  refine ⟨fun b hb => ⟨(hm b hb).window_eq, fun p hp => ?_⟩, ?_⟩
  · obtain ⟨-, hlow, hhigh⟩ := (hm b hb).recent p hp
    exact ⟨by omega, le_iff_toNat_le.2 hhigh⟩
  · intro epoch results hslides b hb e hfind x hfits
    have hwrap : m.globalFlushCounter.toNat + 1 < 2 ^ 64 := by
      -- a counter that wraps to 0 lets nothing leave the window
      by_contra hge
      have hlt := m.globalFlushCounter.toNat_lt
      rw [UInt64.lt_iff_toNat_lt, UInt64.toNat_add] at hslides
      have hsize : Bucket.windowSize.toNat = 10 := rfl
      have hone : (1 : UInt64).toNat = 1 := rfl
      omega
    obtain ⟨b₀, hb₀, f, hid, rfl⟩ := exists_of_mem_recordFlush hb
    rw [(hm b₀ hb₀).window_credit (by rw [hid, toNat_add_one hwrap])]
    exact get_le_total hfind x hfits

/-- A split of a bucket that has lived through one flush. -/
theorem window_statistics_match_after_split :
    let m := ManagerCall.run ℚ (new 2 none) [.initializeFromFirstFlush [[98]],
      .op (.onFlushCompleted 0 [⟨1, 3, 100, [97], [], [98]⟩, ⟨0, 0, 0, [], [98], []⟩]),
      .op (.adjustAfterCompaction 0)]
    m.buckets.length = 3 ∧ ∀ b ∈ m.buckets, ∀ x, b.window x = total x b.flushEvents :=
  ⟨by decide +kernel, fun b hb => ((window_statistics_match ℚ 2 none
    [.initializeFromFirstFlush [[98]],
      .op (.onFlushCompleted 0 [⟨1, 3, 100, [97], [], [98]⟩, ⟨0, 0, 0, [], [98], []⟩]),
      .op (.adjustAfterCompaction 0)] (by decide)).1 b hb).1⟩

end BucketManager

/-! ## The flush counter wraps -/

/-- The event a bucket gets from a flush without results. -/
def emptyEvent (id : UInt64) : FlushEvent := ⟨id, 0, 0, 0, []⟩

/-- The bucket after `n` flushes without results that follow the flush `c`. -/
def Bucket.afterEmptyFlushes (c : UInt64) : ℕ → Bucket → Bucket
  | 0, b => b
  | n + 1, b => slide (c + ofNat n + 1)
      ((afterEmptyFlushes c n b).credit (emptyEvent (c + ofNat n + 1)))

/-- Reports of flushes without results. -/
def emptyFlushes (n : ℕ) : List ManagerCall := replicate n (.op (.onFlushCompleted 0 []))

namespace BucketManager

variable (D : Type) [Double D] {m : BucketManager}

/-- Either path gives every bucket an empty event if there are no results. -/
lemma flushedEvents_nil (m : BucketManager) (id epoch : UInt64) :
    m.flushedEvents id epoch [] = replicate m.buckets.length (emptyEvent id) := by
  unfold flushedEvents
  split_ifs with hfast
  · rw [← hfast.2]
    rfl
  · rw [accumulated, foldl_nil, map_replicate]
    rfl

lemma run_emptyFlushes (hinit : m.initialized = true) (n : ℕ) :
    ManagerCall.run D m (emptyFlushes n) = { m with
      buckets := m.buckets.map (afterEmptyFlushes m.globalFlushCounter n)
      globalFlushCounter := m.globalFlushCounter + ofNat n } := by
  induction n with
  | zero =>
    have hmap : m.buckets.map (afterEmptyFlushes m.globalFlushCounter 0) = m.buckets :=
      map_id _
    have hcounter : m.globalFlushCounter + ofNat 0 = m.globalFlushCounter := add_zero _
    rw [hmap, hcounter]
    rfl
  | succ n ih =>
    have hzip : ∀ (f : Bucket → FlushEvent → Bucket) (e : FlushEvent) (bs : List Bucket),
        zipWith f bs (replicate bs.length e) = bs.map fun b => f b e := by
      intro f e bs
      induction bs with
      | nil => rfl
      | cons b bs ih => exact congrArg (_ :: ·) ih
    have hcounter : m.globalFlushCounter + ofNat n + 1 =
        m.globalFlushCounter + ofNat (n + 1) := by
      rw [add_assoc, ofNat_add]
      rfl
    rw [emptyFlushes, replicate_succ', ManagerCall.run_append]
    change onFlushCompleted (ManagerCall.run D m (emptyFlushes n)) 0 [] = _
    rw [ih]
    refine (onFlushCompleted_eq _ (by exact hinit) 0 []).trans ?_
    rw [recordFlush_eq, flushedEvents_nil, hzip, map_map, map_map, ← hcounter]
    rfl

lemma ofNat_wrap {n : ℕ} (hn : n + 2 = 2 ^ 64) : UInt64.ofNat (n + 1) + 1 = 0 := by
  rw [← UInt64.ofNat_one, ← UInt64.ofNat_add, hn]
  rfl

/-- The flush that wraps the counter lets no event go. -/
lemma find_afterEmptyFlushes {n : ℕ} (hn : n + 2 = 2 ^ 64) (b : Bucket) :
    find (ofNat (n + 1)) (b.afterEmptyFlushes 0 (n + 2)).flushEvents =
      some (emptyEvent (ofNat (n + 1))) := by
  have hprev : 0 + ofNat n + 1 = ofNat (n + 1) := by
    rw [zero_add, ofNat_add]
    rfl
  have hlast : 0 + ofNat (n + 1) + 1 = 0 := by rw [zero_add, ofNat_wrap hn]
  have hne : (0 : UInt64) ≠ ofNat (n + 1) := fun h =>
    absurd (ofNat_wrap hn) (by rw [← h]; decide)
  rw [afterEmptyFlushes, hlast, find_slide fun h => absurd h (by decide)]
  refine (find_assign _ _ _ _).trans ((if_neg hne).trans ?_)
  rw [afterEmptyFlushes, hprev, find_slide fun _ h =>
    absurd (sub_eq_self.1 h.symm) (by decide)]
  exact (find_assign _ _ _ _).trans (if_pos rfl)

/-- After `2^64` flushes the counter is 0, and the event of the flush before is still there. -/
theorem wrapped_counter_keeps_old_event :
    ∃ calls, ∃ b ∈ (ManagerCall.run ℚ (new 1 none) calls).buckets, ∃ p ∈ b.flushEvents,
      ¬ p.1 ≤ (ManagerCall.run ℚ (new 1 none) calls).globalFlushCounter := by
  obtain ⟨n, hn⟩ : ∃ n, n + 2 = 2 ^ 64 := ⟨2 ^ 64 - 2, rfl⟩
  refine ⟨[.initializeFromFirstFlush []] ++ emptyFlushes (n + 2), ?_⟩
  rw [ManagerCall.run_append, run_emptyFlushes ℚ rfl]
  refine ⟨_, mem_map_of_mem mem_cons_self, _,
    mem_of_find (find_afterEmptyFlushes hn _), ?_⟩
  have hzero : (0 : UInt64) + ofNat (n + 2) = 0 := by
    rw [hn]
    rfl
  show ¬ UInt64.ofNat (n + 1) ≤ 0 + UInt64.ofNat (n + 2)
  rw [hzero, UInt64.not_le, UInt64.pos_iff_ne_zero]
  exact fun h => absurd (ofNat_wrap hn) (by rw [h]; decide)

end BucketManager

end BucketLSM
