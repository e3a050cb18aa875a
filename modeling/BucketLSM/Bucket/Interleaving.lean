import BucketLSM.Bucket.Window

/-!
# Flushes interleaved with adjustments

A bucket flush copies the bucket ranges with `GetSnapshot`, works without the lock, and reports
one result per range to `OnFlushCompleted`. Splits and merges may happen in between; they change
the structure epoch, and results are matched to buckets by position only if the epoch and the
number of buckets are those of the snapshot.
-/

namespace BucketLSM

open List BucketManager BucketFlushResult UInt64

/-- The range a result is about. -/
def BucketFlushResult.range (r : BucketFlushResult) : Slice × Slice := (r.minKey, r.maxKey)

/-- The manager and the snapshots of the flushes that have not completed. -/
structure FlushSystem where
  manager : BucketManager
  snapshots : List BucketSnapshot

/-- A call made by a flush or after a compaction. A completed flush is named by its position
among the snapshots. -/
inductive SystemCall
  | initializeFromFirstFlush (splitPoints : List Slice)
  | getSnapshot
  | onFlushCompleted (flush : ℕ) (results : List BucketFlushResult)
  | adjustAfterCompaction (compactedBucketIdx : ℤ)

namespace BucketManager

/-- An adjustment after a compaction leaves the manager as it is or counts the structure epoch
up. -/
lemma adjustAfterCompaction_cases (D : Type) [Double D] (m : BucketManager) (idx : ℤ) :
    (m.adjustAfterCompaction D idx).2 = m ∨
      (m.adjustAfterCompaction D idx).2.structureEpoch = m.structureEpoch + 1 := by
  unfold adjustAfterCompaction
  split_ifs
  · exact .inl rfl
  · exact .inl rfl
  · cases m.buckets[idx.toNat]? with
    | none => exact .inl rfl
    | some b =>
      dsimp only
      cases m.compactionAdjustment D b with
      | split =>
        rcases m.splitBucket_cases idx.toNat with h | ⟨_, _, _, -, h⟩
        · exact .inl h
        · exact .inr (by rw [applyAdjustment, h])
      | merge =>
        rcases m.mergeWithAdjacentBucket_cases idx.toNat with h | ⟨_, _, _, _, -, h⟩
        · exact .inl h
        · exact .inr (by rw [applyAdjustment, h])
      | keep => exact .inl rfl

/-- Without buckets there is nothing to adjust. -/
lemma adjustAfterCompaction_nil (D : Type) [Double D] {m : BucketManager} (h : m.buckets = [])
    (idx : ℤ) : (m.adjustAfterCompaction D idx).2 = m := by
  unfold adjustAfterCompaction
  split_ifs
  · rfl
  · rfl
  · rw [h, getElem?_nil]

end BucketManager

namespace FlushSystem

/-- The system before any flush. -/
def new (target : ℤ) (enable : Option Bool) : FlushSystem := ⟨BucketManager.new target enable, []⟩

section Calls

variable (D : Type) [Double D]

/-- The effect of a call. -/
def apply (s : FlushSystem) : SystemCall → FlushSystem
  | .initializeFromFirstFlush points =>
    { s with manager := s.manager.initializeFromFirstFlush points }
  | .getSnapshot => { s with snapshots := s.snapshots ++ [s.manager.getSnapshot] }
  | .onFlushCompleted flush results =>
    match s.snapshots[flush]? with
    | none => s
    | some snap => ⟨s.manager.onFlushCompleted snap.epoch results, s.snapshots.eraseIdx flush⟩
  | .adjustAfterCompaction idx => { s with manager := (s.manager.adjustAfterCompaction D idx).2 }

/-- The system after the calls. -/
def run (s : FlushSystem) (calls : List SystemCall) : FlushSystem := calls.foldl (apply D) s

lemma run_append (s : FlushSystem) (calls calls' : List SystemCall) :
    run D s (calls ++ calls') = run D (run D s calls) calls' := foldl_append

end Calls

/-- After at most `n` calls. A snapshot with the current epoch has the current ranges, unless it
is from before the first flush. -/
structure Synced (n : ℕ) (s : FlushSystem) : Prop where
  windowed : s.manager.Windowed
  counter_le : s.manager.globalFlushCounter.toNat ≤ n
  epoch_le : s.manager.structureEpoch.toNat ≤ n
  uninitialized : s.manager.initialized = false → s.manager.buckets = []
  snapshot_le : ∀ snap ∈ s.snapshots, snap.epoch.toNat ≤ s.manager.structureEpoch.toNat
  snapshot_eq : ∀ snap ∈ s.snapshots, snap.epoch = s.manager.structureEpoch →
    snap.ranges = s.manager.ranges ∨ snap.ranges = []

lemma synced_new (target : ℤ) (enable : Option Bool) : (new target enable).Synced 0 where
  windowed := BucketManager.windowed_new target enable
  counter_le := le_rfl
  epoch_le := le_rfl
  uninitialized _ := rfl
  snapshot_le _ h := absurd h not_mem_nil
  snapshot_eq _ h := absurd h not_mem_nil

section Steps

variable {n : ℕ} {s : FlushSystem}

lemma Synced.mono (h : s.Synced n) {n' : ℕ} (hn : n ≤ n') : s.Synced n' :=
  { h with
    counter_le := h.counter_le.trans hn
    epoch_le := h.epoch_le.trans hn }

lemma Synced.initializeFromFirstFlush (h : s.Synced n) (points : List Slice) :
    Synced n { s with manager := s.manager.initializeFromFirstFlush points } := by
  by_cases hinit : s.manager.initialized = true
  · rw [BucketManager.initializeFromFirstFlush, if_pos hinit]
    exact h
  · have hempty := h.uninitialized (by simpa using hinit)
    have hwindowed := h.windowed.initializeFromFirstFlush points
    rw [BucketManager.initializeFromFirstFlush, if_neg hinit] at hwindowed ⊢
    refine ⟨hwindowed, h.counter_le, h.epoch_le, fun h' => absurd h' (by simp), h.snapshot_le, ?_⟩
    intro snap hsnap hepoch
    have hranges : s.manager.ranges = [] := by rw [BucketManager.ranges, hempty, List.map_nil]
    exact .inr ((h.snapshot_eq snap hsnap hepoch).elim (fun heq => heq.trans hranges) id)

lemma Synced.getSnapshot (h : s.Synced n) :
    Synced n { s with snapshots := s.snapshots ++ [s.manager.getSnapshot] } := by
  refine { h with snapshot_le := fun snap hsnap => ?_, snapshot_eq := fun snap hsnap hepoch => ?_ }
  · rcases mem_append.1 hsnap with hsnap | hsnap
    · exact h.snapshot_le snap hsnap
    · rw [mem_singleton.1 hsnap]
      exact le_rfl
  · rcases mem_append.1 hsnap with hsnap | hsnap
    · exact h.snapshot_eq snap hsnap hepoch
    · rw [mem_singleton.1 hsnap]
      exact .inl rfl

lemma Synced.onFlushCompleted (h : s.Synced n) (hn : n + 1 < 2 ^ 64) (epoch : UInt64)
    (results : List BucketFlushResult) {snapshots : List BucketSnapshot}
    (hsub : snapshots.Sublist s.snapshots) :
    Synced (n + 1) ⟨s.manager.onFlushCompleted epoch results, snapshots⟩ := by
  have hwrap : s.manager.globalFlushCounter.toNat + 1 < 2 ^ 64 :=
    lt_of_le_of_lt (Nat.add_le_add_right h.counter_le 1) hn
  have hranges := s.manager.ranges_onFlushCompleted epoch results
  by_cases hinit : s.manager.initialized = true
  · have hepoch : (s.manager.onFlushCompleted epoch results).structureEpoch =
        s.manager.structureEpoch := by rw [BucketManager.onFlushCompleted, if_pos hinit]
    have hinit' : (s.manager.onFlushCompleted epoch results).initialized = true := by
      rw [BucketManager.onFlushCompleted, if_pos hinit]
      exact hinit
    constructor
    · exact h.windowed.onFlushCompleted hwrap epoch results
    · rw [s.manager.globalFlushCounter_onFlushCompleted hinit, toNat_add_one hwrap]
      exact Nat.add_le_add_right h.counter_le 1
    · rw [hepoch]
      exact h.epoch_le.trans (Nat.le_succ n)
    · exact fun h' => absurd (hinit'.symm.trans h') (by simp)
    · rw [hepoch]
      exact fun snap hsnap => h.snapshot_le snap (hsub.subset hsnap)
    · rw [hepoch, hranges]
      exact fun snap hsnap => h.snapshot_eq snap (hsub.subset hsnap)
  · rw [BucketManager.onFlushCompleted, if_neg hinit]
    exact { (h.mono (Nat.le_succ n)) with
      snapshot_le := fun snap hsnap => h.snapshot_le snap (hsub.subset hsnap)
      snapshot_eq := fun snap hsnap => h.snapshot_eq snap (hsub.subset hsnap) }

lemma Synced.adjustAfterCompaction (D : Type) [Double D] (h : s.Synced n) (hn : n + 1 < 2 ^ 64)
    (idx : ℤ) : Synced (n + 1) { s with manager := (s.manager.adjustAfterCompaction D idx).2 } := by
  rcases s.manager.adjustAfterCompaction_cases D idx with heq | hepoch
  · rw [heq]
    exact h.mono (Nat.le_succ n)
  · have hwrap : s.manager.structureEpoch.toNat + 1 < 2 ^ 64 :=
      lt_of_le_of_lt (Nat.add_le_add_right h.epoch_le 1) hn
    have hnat : (s.manager.adjustAfterCompaction D idx).2.structureEpoch.toNat =
        s.manager.structureEpoch.toNat + 1 := by
      rw [hepoch, toNat_add_one hwrap]
    have hsame := s.manager.sameButBuckets_adjustAfterCompaction D idx
    have hinit : s.manager.buckets ≠ [] := by
      intro hnil
      rw [adjustAfterCompaction_nil D hnil idx] at hnat
      omega
    constructor
    · exact h.windowed.adjustAfterCompaction D idx
    · rw [hsame.globalFlushCounter_eq]
      exact h.counter_le.trans (Nat.le_succ n)
    · rw [hnat]
      exact Nat.add_le_add_right h.epoch_le 1
    · intro huninit
      exact absurd (h.uninitialized (hsame.initialized_eq.symm.trans huninit)) hinit
    · rw [hnat]
      exact fun snap hsnap => (h.snapshot_le snap hsnap).trans (Nat.le_succ _)
    · intro snap hsnap heq
      -- a snapshot taken before has a smaller epoch
      have hle := h.snapshot_le snap hsnap
      rw [heq, hnat] at hle
      omega

variable (D : Type) [Double D]

lemma Synced.apply (h : s.Synced n) (hn : n + 1 < 2 ^ 64) (call : SystemCall) :
    (s.apply D call).Synced (n + 1) := by
  cases call with
  | initializeFromFirstFlush points =>
    exact (h.initializeFromFirstFlush points).mono (Nat.le_succ n)
  | getSnapshot => exact h.getSnapshot.mono (Nat.le_succ n)
  | onFlushCompleted flush results =>
    simp only [FlushSystem.apply]
    cases s.snapshots[flush]? with
    | none => exact h.mono (Nat.le_succ n)
    | some snap => exact h.onFlushCompleted hn snap.epoch results (eraseIdx_sublist _ _)
  | adjustAfterCompaction idx => exact h.adjustAfterCompaction D hn idx

lemma Synced.run (calls : List SystemCall) (h : s.Synced n) (hn : n + calls.length < 2 ^ 64) :
    (s.run D calls).Synced (n + calls.length) := by
  induction calls generalizing n s with
  | nil => exact h
  | cons call calls ih =>
    rw [length_cons, Nat.add_comm calls.length, ← Nat.add_assoc] at hn ⊢
    exact ih (h.apply D (by omega) call) hn

end Steps

section Main

variable (D : Type) [Double D]

/-- A flush that completes within fewer than `2^64` calls gives each bucket one event with its
id, after those that stay in the window. On the fast path it is the result reported at the same
position, for the range the snapshot had there. -/
theorem flush_credits_snapshot_ranges (target : ℤ) (enable : Option Bool)
    (calls : List SystemCall) (hcalls : calls.length + 1 < 2 ^ 64) (snap : BucketSnapshot)
    (hsnap : snap ∈ (run D (new target enable) calls).snapshots) (results : List BucketFlushResult)
    (haligned : results.map BucketFlushResult.range = snap.ranges) :
    let m := (run D (new target enable) calls).manager
    let id := m.globalFlushCounter + 1
    ∀ (i : ℕ) (b : Bucket), m.buckets[i]? = some b → ∃ (b' : Bucket) (e : FlushEvent),
      (m.onFlushCompleted snap.epoch results).buckets[i]? = some b' ∧ b'.range = b.range ∧
      e.flushId = id ∧ (∀ p ∈ b.flushEvents, p.1 ≠ id) ∧
      b'.flushEvents = b.flushEvents.filter (Bucket.Stays id) ++ [(id, e)] ∧
      (m.FastPath snap.epoch results →
        ∃ r : BucketFlushResult, results[i]? = some r ∧ e = r.event id ∧ snap.ranges[i]? = some b'.range) := by
  intro m id i b hb
  have hsynced := (synced_new target enable).run D calls (by omega)
  rw [Nat.zero_add] at hsynced
  have hinit : m.initialized = true := by
    by_contra h
    rw [hsynced.uninitialized (by simpa using h), getElem?_nil] at hb
    cases hb
  have hwrap : m.globalFlushCounter.toNat + 1 < 2 ^ 64 :=
    lt_of_le_of_lt (Nat.add_le_add_right hsynced.counter_le 1) hcalls
  have hlt := (List.getElem?_eq_some_iff.1 hb).1
  obtain ⟨e, he⟩ : ∃ e, (m.flushedEvents id snap.epoch results)[i]? = some e :=
    ⟨_, getElem?_eq_getElem (by rwa [m.length_flushedEvents])⟩
  have hid : e.flushId = id := m.flushId_of_mem_flushedEvents (mem_of_getElem? he)
  have hid' : e.flushId.toNat = m.globalFlushCounter.toNat + 1 := by
    rw [hid, toNat_add_one hwrap]
  have hwindowed := hsynced.windowed b (mem_of_getElem? hb)
  refine ⟨Bucket.slide id (b.credit e), e, ?_, ?_, hid, ?_, ?_, ?_⟩
  · rw [m.buckets_onFlushCompleted hinit, m.recordFlush_eq, getElem?_map,
      getElem?_zipWith, hb, he]
    rfl
  · exact b.range_flush id e
  · exact fun p hp => UInt64.ne_of_lt (hid ▸ hwindowed.lt_next hid' p hp)
  · rw [← hid]
    exact hwindowed.flushEvents_flush hid'
  · intro hfast
    have hranges : snap.ranges = m.ranges := by
      refine (hsynced.snapshot_eq snap hsnap hfast.1).resolve_right fun hnil => ?_
      -- a snapshot without ranges has no results, and there are buckets
      have hlen := congrArg length (haligned.trans hnil)
      rw [length_map, length_nil, hfast.2] at hlen
      omega
    have hevents : m.flushedEvents id snap.epoch results =
        results.map (event id) := if_pos hfast
    rw [hevents, getElem?_map, Option.map_eq_some_iff] at he
    obtain ⟨r, hr, rfl⟩ := he
    refine ⟨r, hr, rfl, ?_⟩
    rw [hranges, b.range_flush, BucketManager.ranges, List.getElem?_map, hb]
    rfl

end Main

/-- The first flush into two buckets. -/
theorem flush_credits_snapshot_ranges_first :
    let m := (run ℚ (new 2 none) [.initializeFromFirstFlush [[98]], .getSnapshot]).manager
    ∀ (i : ℕ) (b : Bucket), m.buckets[i]? = some b → ∃ b' : Bucket,
      (m.onFlushCompleted 0 [⟨1, 3, 100, [97], [], [98]⟩, ⟨0, 0, 0, [], [98], []⟩]).buckets[i]? =
        some b' ∧ b'.range = b.range := by
  intro m i b hb
  obtain ⟨b', e, hb', hrange, -⟩ := flush_credits_snapshot_ranges ℚ 2 none
    [.initializeFromFirstFlush [[98]], .getSnapshot] (by decide) ⟨0, [([], [98]), ([98], [])]⟩
    (by decide) [⟨1, 3, 100, [97], [], [98]⟩, ⟨0, 0, 0, [], [98], []⟩] rfl i b hb
  exact ⟨b', hb', hrange⟩

end FlushSystem

/-! ## The structure epoch wraps -/

namespace BucketManager

/-- The manager with its structure epoch counted up. -/
def shiftEpoch (m : BucketManager) (d : UInt64) : BucketManager :=
  { m with structureEpoch := m.structureEpoch + d }

lemma splitBucket_shiftEpoch (m : BucketManager) (d : UInt64) (idx : ℕ) :
    (m.shiftEpoch d).splitBucket idx = (m.splitBucket idx).shiftEpoch d := by
  unfold splitBucket
  have hbuckets : (m.shiftEpoch d).buckets = m.buckets := rfl
  rw [hbuckets]
  cases m.buckets[idx]? with
  | none => rfl
  | some b => simp only [shiftEpoch, add_right_comm]

lemma mergeWithAdjacentBucket_shiftEpoch (m : BucketManager) (d : UInt64) (idx : ℕ) :
    (m.shiftEpoch d).mergeWithAdjacentBucket idx =
      (m.mergeWithAdjacentBucket idx).shiftEpoch d := by
  unfold mergeWithAdjacentBucket
  have hbuckets : (m.shiftEpoch d).buckets = m.buckets := rfl
  have hleft : (m.shiftEpoch d).mergeLeft idx = m.mergeLeft idx := rfl
  rw [hbuckets, hleft]
  by_cases hlen : idx < m.buckets.length ∧ 1 < m.buckets.length
  · rw [if_pos hlen, if_pos hlen]
    dsimp only
    cases m.buckets[m.mergeLeft idx]? with
    | none => rfl
    | some l =>
      cases m.buckets[m.mergeLeft idx + 1]? with
      | none => rfl
      | some r => simp only [shiftEpoch, add_right_comm]
  · rw [if_neg hlen, if_neg hlen]

/-- An adjustment does not depend on the structure epoch. -/
lemma adjustAfterCompaction_shiftEpoch (D : Type) [Double D] (m : BucketManager) (d : UInt64)
    (idx : ℤ) : ((m.shiftEpoch d).adjustAfterCompaction D idx).2 =
      (m.adjustAfterCompaction D idx).2.shiftEpoch d := by
  unfold adjustAfterCompaction
  have hbuckets : (m.shiftEpoch d).buckets = m.buckets := rfl
  have henable : (m.shiftEpoch d).enableBucketAdjustment = m.enableBucketAdjustment := rfl
  rw [hbuckets, henable]
  split_ifs
  · rfl
  · rfl
  · cases m.buckets[idx.toNat]? with
    | none => rfl
    | some b =>
      have hdecision : (m.shiftEpoch d).compactionAdjustment D b = m.compactionAdjustment D b := rfl
      dsimp only
      rw [hdecision]
      cases m.compactionAdjustment D b with
      | split => exact m.splitBucket_shiftEpoch d idx.toNat
      | merge => exact m.mergeWithAdjacentBucket_shiftEpoch d idx.toNat
      | keep => rfl

end BucketManager

namespace FlushSystem

/-- Two buckets, the first of which got all the data of the only flush, and the snapshot of the
next flush. -/
def oneHotBucket : FlushSystem :=
  run ℚ (new 2 none) [.initializeFromFirstFlush [[98]], .getSnapshot,
    .onFlushCompleted 0 [⟨1, 3, 100, [97], [], [98]⟩, ⟨0, 0, 0, [], [98], []⟩], .getSnapshot]

/-- Splitting the first bucket and merging its halves changes nothing but the epoch. -/
lemma run_splitMerge (n : ℕ) : oneHotBucket.run ℚ (replicate (2 * n) (.adjustAfterCompaction 0)) =
      ⟨oneHotBucket.manager.shiftEpoch (UInt64.ofNat (2 * n)), oneHotBucket.snapshots⟩ := by
  have hcycle : ((oneHotBucket.manager.adjustAfterCompaction ℚ 0).2.adjustAfterCompaction ℚ 0).2 =
      oneHotBucket.manager.shiftEpoch 2 := by decide +kernel
  induction n with
  | zero => rfl
  | succ n ih =>
    rw [Nat.mul_succ, replicate_add, run_append, ih]
    show FlushSystem.mk ((((oneHotBucket.manager.shiftEpoch _).adjustAfterCompaction ℚ 0
      ).2.adjustAfterCompaction ℚ 0).2) oneHotBucket.snapshots = _
    rw [adjustAfterCompaction_shiftEpoch, adjustAfterCompaction_shiftEpoch, hcycle, ofNat_add]
    simp only [shiftEpoch, add_assoc, add_comm]
    rfl

/-- `2^64` changes of the structure move the boundary between the two buckets and leave the
epoch where it was. -/
lemma exists_run_otherRanges : ∃ calls, (oneHotBucket.run ℚ calls).manager.structureEpoch = 0 ∧
      (oneHotBucket.run ℚ calls).manager.ranges = [([], [97]), ([97], [])] ∧
      (oneHotBucket.run ℚ calls).snapshots = [⟨0, [([], [98]), ([98], [])]⟩] := by
  obtain ⟨n, hn⟩ : ∃ n, 2 * n + 2 = 2 ^ 64 := ⟨2 ^ 63 - 1, by norm_num⟩
  have hepoch : 2 + ofNat (2 * n) = 0 := by
    have hsum : ofNat (2 * n + 2) = ofNat (2 * n) + 2 := ofNat_add _ _
    rw [add_comm, ← hsum, hn]
    rfl
  refine ⟨replicate (2 * n) (.adjustAfterCompaction 0) ++
    [.adjustAfterCompaction 0, .adjustAfterCompaction 2], ?_⟩
  rw [run_append, run_splitMerge]
  have hmanager : ∀ d, (run ℚ ⟨oneHotBucket.manager.shiftEpoch d, oneHotBucket.snapshots⟩
      [.adjustAfterCompaction 0, .adjustAfterCompaction 2]).manager =
      shiftEpoch ((oneHotBucket.manager.adjustAfterCompaction ℚ 0
        ).2.adjustAfterCompaction ℚ 2).2 d := by
    intro d
    show (((oneHotBucket.manager.shiftEpoch d).adjustAfterCompaction ℚ 0).2.adjustAfterCompaction
      ℚ 2).2 = _
    rw [adjustAfterCompaction_shiftEpoch, adjustAfterCompaction_shiftEpoch]
  have hmerged : ((oneHotBucket.manager.adjustAfterCompaction ℚ 0).2.adjustAfterCompaction
        ℚ 2).2.structureEpoch = 2 ∧
      ((oneHotBucket.manager.adjustAfterCompaction ℚ 0).2.adjustAfterCompaction ℚ 2).2.ranges =
        [([], [97]), ([97], [])] := by decide +kernel
  rw [hmanager]
  have hsnapshots : oneHotBucket.snapshots = [⟨0, [([], [98]), ([98], [])]⟩] := by decide +kernel
  refine ⟨?_, hmerged.2, hsnapshots⟩
  rw [shiftEpoch, hmerged.1, hepoch]

/-- After `2^64` changes of the structure the fast path credits the first result to a bucket with
another range than the snapshot had there. -/
theorem wrapped_epoch_credits_other_range :
    ∃ calls, ∃ snap ∈ (run ℚ (new 2 none) calls).snapshots, ∃ results : List BucketFlushResult,
      results.map BucketFlushResult.range = snap.ranges ∧
      (run ℚ (new 2 none) calls).manager.FastPath snap.epoch results ∧
      ((run ℚ (new 2 none) calls).manager.onFlushCompleted snap.epoch results).ranges[0]? ≠
        snap.ranges[0]? := by
  obtain ⟨calls, hepoch, hranges, hsnapshots⟩ := exists_run_otherRanges
  refine ⟨[.initializeFromFirstFlush [[98]], .getSnapshot,
    .onFlushCompleted 0 [⟨1, 3, 100, [97], [], [98]⟩, ⟨0, 0, 0, [], [98], []⟩], .getSnapshot] ++
    calls, ⟨0, [([], [98]), ([98], [])]⟩, ?_⟩
  rw [run_append]
  change _ ∈ (oneHotBucket.run ℚ calls).snapshots ∧ _
  rw [hsnapshots]
  refine ⟨mem_singleton_self _,
    [⟨1, 3, 100, [97], [], [98]⟩, ⟨0, 0, 0, [], [98], []⟩], rfl, ⟨hepoch.symm, ?_⟩, ?_⟩
  · have hlen := congrArg List.length hranges
    rw [BucketManager.ranges, List.length_map] at hlen
    exact hlen.symm
  · rw [ranges_onFlushCompleted]
    change (oneHotBucket.run ℚ calls).manager.ranges[0]? ≠ _
    rw [hranges]
    decide

end FlushSystem

end BucketLSM
