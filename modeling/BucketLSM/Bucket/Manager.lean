import BucketLSM.Bytes
import Mathlib.Data.List.Sort
import Mathlib.Data.UInt

/-!
# The bucket manager

`BucketManager` (`db/column_family.h`, `db/column_family.cc`) cuts the user key space of a
column family into buckets. The first flush fixes the boundaries; later flushes record
per-bucket statistics over a sliding window, and compactions split hot buckets and merge
cold ones.

The definitions below follow the source function by function. Counters are `uint64_t` and
wrap as `UInt64` does. Every public method holds `mutex_` for its whole body, so a method
call is one atomic step on the manager.
-/

namespace BucketLSM

open Double

/-! ## Buckets and their window statistics -/

/-- What one global flush did to a bucket. -/
structure FlushEvent where
  flushId : UInt64
  fileCount : UInt64
  entryCount : UInt64
  dataBytes : UInt64
  medianKey : Slice
deriving DecidableEq, Repr

/-- `std::map<uint64_t, FlushEvent>`: pairs in increasing order of the flush id. -/
abbrev FlushEvents := List (UInt64 × FlushEvent)

namespace FlushEvents

/-- `flush_events[id] = event`. -/
def assign (id : UInt64) (event : FlushEvent) : FlushEvents → FlushEvents
  | [] => [(id, event)]
  | (i, e) :: rest =>
    if id < i then (id, event) :: (i, e) :: rest
    else if id = i then (id, event) :: rest
    else (i, e) :: assign id event rest

/-- `flush_events.find(id)`. -/
def find (id : UInt64) (events : FlushEvents) : Option FlushEvent :=
  (List.find? (fun p => p.1 = id) events).map Prod.snd

/-- `flush_events.erase(it)` for the iterator at `id`. -/
def erase (id : UInt64) (events : FlushEvents) : FlushEvents :=
  List.filter (fun p => p.1 ≠ id) events

end FlushEvents

open FlushEvents

/-- A key range `[minKey, maxKey)`; an empty `minKey` is `-∞` and an empty `maxKey` is `+∞`. -/
structure Bucket where
  minKey : Slice
  maxKey : Slice
  flushEvents : FlushEvents
  windowFileCount : UInt64
  windowEntryCount : UInt64
  windowDataBytes : UInt64
deriving DecidableEq, Repr

namespace Bucket

/-- `Bucket::WINDOW_SIZE`. -/
def windowSize : UInt64 := 10

/-- A default-constructed bucket with the given range. -/
def ofRange (minKey maxKey : Slice) : Bucket :=
  ⟨minKey, maxKey, [], 0, 0, 0⟩

/-- `Bucket::AddFlushEvent`. -/
def addFlushEvent (b : Bucket) (flushId fileCount entries bytes : UInt64) (medianKey : Slice) :
    Bucket :=
  { b with
    flushEvents := FlushEvents.assign flushId ⟨flushId, fileCount, entries, bytes, medianKey⟩
      b.flushEvents
    windowFileCount := b.windowFileCount + fileCount
    windowEntryCount := b.windowEntryCount + entries
    windowDataBytes := b.windowDataBytes + bytes }

/-- `Bucket::RemoveFlushEvent`. -/
def removeFlushEvent (b : Bucket) (flushId : UInt64) : Bucket :=
  match FlushEvents.find flushId b.flushEvents with
  | none => b
  | some event =>
    { b with
      windowFileCount := b.windowFileCount - event.fileCount
      windowEntryCount := b.windowEntryCount - event.entryCount
      windowDataBytes := b.windowDataBytes - event.dataBytes
      flushEvents := FlushEvents.erase flushId b.flushEvents }

/-- `Bucket::RecalculateWindowStats`. -/
def recalculateWindowStats (b : Bucket) : Bucket :=
  { b with
    windowFileCount := (b.flushEvents.map fun p => p.2.fileCount).sum
    windowEntryCount := (b.flushEvents.map fun p => p.2.entryCount).sum
    windowDataBytes := (b.flushEvents.map fun p => p.2.dataBytes).sum }

/-- The range of a bucket, as `GetSnapshot` copies it. -/
def range (b : Bucket) : Slice × Slice := (b.minKey, b.maxKey)

end Bucket

/-! ## Key ranges -/

/-- The test of `FindBucketInternal` and `FindBucketInSnapshot`: `ge_min && lt_max`. -/
def rangeContains (r : Slice × Slice) (key : Slice) : Bool :=
  (r.1 = [] || r.1 ≤ key) && (r.2 = [] || key < r.2)

/-- The loop both lookups share: the first range that contains the key. -/
def firstContaining (ranges : List (Slice × Slice)) (key : Slice) : Option ℕ :=
  ranges.findIdx? fun r => rangeContains r key

/-- The overlap test of `FindBucketsInRange` and `AdjustBucketsInRange` between a bucket
and `[minKey, maxKey)`. -/
def rangeOverlaps (minKey maxKey : Slice) (b : Bucket) : Bool :=
  !(b.maxKey ≠ [] && minKey ≠ [] && b.maxKey ≤ minKey) &&
    !(maxKey ≠ [] && b.minKey ≠ [] && maxKey ≤ b.minKey)

/-- The loop of `ComputeMidpointKey` over the common positions of `a` and `b`: the common
part copied so far, and the first position where `a[i] < b[i]`, if any. -/
def firstDivergence : Slice → Slice → Slice → Option (Slice × Byte × Byte)
  | copied, x :: a, y :: b =>
    if x < y then some (copied, x, y) else firstDivergence (copied ++ [x]) a b
  | _, _, _ => none

/-- `BucketManager::ComputeMidpointKey`. -/
def computeMidpointKey (a b : Slice) : Slice :=
  if a = [] && b = [] then [77] -- 'M'
  else if a = [] then
    match b with
    -- `b[0] > '\x01'` compares plain (signed) chars
    | y :: _ => if 1 < y.signed then [y - 1] else [1]
    | [] => [1]
  else if b = [] then a ++ [128]
  else
    match firstDivergence [] a b with
    | some (copied, x, y) =>
      let result := copied ++ [⟨(x.val + y.val) / 2, by omega⟩]
      if a < result && result < b then result else a ++ [128]
    | none =>
      match b.drop a.length with
      | y :: _ =>
        let result := a ++ [⟨y.val / 2, by omega⟩]
        if a < result && result < b then result else a ++ [128]
      | [] => a ++ [128]

/-- Sorted keys' middle element, `keys[keys.size() / 2]`; empty if there is none. -/
def medianOf (keys : List Slice) : Slice :=
  (keys.insertionSort (· ≤ ·)).getD (keys.length / 2) []

/-- `BucketManager::ComputeSplitPoint`: the median of the recorded flush medians. -/
def computeSplitPoint (b : Bucket) : Slice :=
  medianOf ((b.flushEvents.map Prod.snd).filterMap fun event =>
    if event.medianKey ≠ [] && 0 < event.fileCount then some event.medianKey else none)

/-- The split point `SplitBucket` settles on. The midpoint that replaces a point outside
the bucket is not checked again. -/
def splitPoint (b : Bucket) : Slice :=
  let mid := computeMidpointKey b.minKey b.maxKey
  let p := if computeSplitPoint b = [] then mid else computeSplitPoint b
  let p := if b.minKey ≠ [] && p ≤ b.minKey then mid else p
  if b.maxKey ≠ [] && b.maxKey ≤ p then mid else p

/-- The left half `SplitBucket` leaves in place. -/
def Bucket.splitLeft (b : Bucket) : Bucket :=
  Bucket.recalculateWindowStats
    { b with
      maxKey := splitPoint b
      flushEvents := b.flushEvents.filter fun p => ¬ splitPoint b ≤ p.2.medianKey }

/-- The right half `SplitBucket` inserts: it takes the events whose median is at or above
the split point. -/
def Bucket.splitRight (b : Bucket) : Bucket :=
  Bucket.recalculateWindowStats
    { Bucket.ofRange (splitPoint b) b.maxKey with
      flushEvents := b.flushEvents.filter fun p => splitPoint b ≤ p.2.medianKey }

/-- The events of a merged bucket: those of the right bucket are added to the left ones'. -/
def mergeEvents (left right : FlushEvents) : FlushEvents :=
  right.foldl (fun events p =>
    match FlushEvents.find p.1 events with
    | some e =>
      FlushEvents.assign p.1
        { e with
          fileCount := e.fileCount + p.2.fileCount
          entryCount := e.entryCount + p.2.entryCount
          dataBytes := e.dataBytes + p.2.dataBytes } events
    | none => FlushEvents.assign p.1 p.2 events) left

/-- The bucket `MergeWithAdjacentBucket` leaves in place of two neighbours. -/
def Bucket.mergeWith (left right : Bucket) : Bucket :=
  Bucket.recalculateWindowStats
    { left with
      maxKey := right.maxKey
      flushEvents := mergeEvents left.flushEvents right.flushEvents }

/-! ## The manager -/

/-- What a bucket flush reports for one bucket of its snapshot. -/
structure BucketFlushResult where
  fileCount : UInt64
  entryCount : UInt64
  dataBytes : UInt64
  medianKey : Slice
  minKey : Slice
  maxKey : Slice
deriving DecidableEq, Repr

/-- `BucketManager`. `enableBucketAdjustment` is the option read through `cfd_`, `none`
when the manager has no column family. -/
structure BucketManager where
  buckets : List Bucket
  targetBucketCount : ℤ
  initialized : Bool
  structureEpoch : UInt64
  globalFlushCounter : UInt64
  enableBucketAdjustment : Option Bool
deriving DecidableEq, Repr

/-- `BucketManager::BucketSnapshot`. -/
structure BucketSnapshot where
  epoch : UInt64
  ranges : List (Slice × Slice)
deriving DecidableEq, Repr

/-- `BucketManager::FindBucketInSnapshot`; the last index is the fall-through value. -/
def findBucketInSnapshot (snap : BucketSnapshot) (key : Slice) : ℤ :=
  match firstContaining snap.ranges key with
  | some i => i
  | none => (snap.ranges.length : ℤ) - 1

/-- The statistics the slow path of `OnFlushCompleted` collects for one bucket. -/
structure AccumulatedStats where
  fileCount : UInt64
  entryCount : UInt64
  dataBytes : UInt64
  medianKeys : List Slice
deriving DecidableEq, Repr

namespace BucketManager

/-- The constructor. -/
def new (targetCount : ℤ) (enableBucketAdjustment : Option Bool) : BucketManager :=
  ⟨[], targetCount, false, 0, 0, enableBucketAdjustment⟩

variable (m : BucketManager)

/-- The ranges of the buckets, in order. -/
def ranges : List (Slice × Slice) := m.buckets.map Bucket.range

/-- The ranges `InitializeFromFirstFlush` builds: the first starts at `lo`, each split
point ends one range and starts the next. -/
def rangesFrom (lo : Slice) : List Slice → List (Slice × Slice)
  | [] => [(lo, [])]
  | p :: points => (lo, p) :: rangesFrom p points

/-- `BucketManager::InitializeFromFirstFlush`. -/
def initializeFromFirstFlush (splitPoints : List Slice) : BucketManager :=
  if m.initialized then m
  else
    { m with
      buckets := (rangesFrom [] splitPoints).map fun r => Bucket.ofRange r.1 r.2
      initialized := true }

/-- `BucketManager::FindBucketInternal`; the last index is the fall-through value. -/
def findBucketInternal (key : Slice) : ℤ :=
  match firstContaining m.ranges key with
  | some i => i
  | none => (m.buckets.length : ℤ) - 1

/-- `BucketManager::GetSnapshot`. -/
def getSnapshot : BucketSnapshot :=
  ⟨m.structureEpoch, m.ranges⟩

/-- `BucketManager::FindBucketsInRangeInternal`. -/
def findBucketsInRangeInternal (minKey maxKey : Slice) : List ℕ :=
  m.buckets.zipIdx.filterMap fun p => if rangeOverlaps minKey maxKey p.1 then some p.2 else none

/-- The median key the slow path of `OnFlushCompleted` assigns to a bucket that overlaps a
result: the midpoint of the intersection of the two ranges. -/
def intersectionMedian (result : BucketFlushResult) (b : Bucket) : Slice :=
  let lo := if b.minKey ≠ [] && (result.minKey = [] || result.minKey < b.minKey)
    then b.minKey else result.minKey
  let hi := if b.maxKey ≠ [] && (result.maxKey = [] || b.maxKey < result.maxKey)
    then b.maxKey else result.maxKey
  computeMidpointKey lo hi

/-- One round of the slow path's first phase: a result is shared out evenly over the
buckets that overlap it. -/
def accumulate (acc : List AccumulatedStats) (result : BucketFlushResult) :
    List AccumulatedStats :=
  let overlapping := m.findBucketsInRangeInternal result.minKey result.maxKey
  let n := UInt64.ofNat overlapping.length
  overlapping.foldl (fun acc i =>
    acc.modify i fun s =>
      { fileCount := s.fileCount + result.fileCount / n
        entryCount := s.entryCount + result.entryCount / n
        dataBytes := s.dataBytes + result.dataBytes / n
        medianKeys := s.medianKeys ++
          [intersectionMedian result (m.buckets.getD i (Bucket.ofRange [] []))] }) acc

/-- The buckets of `OnFlushCompleted` before the window slides: the fast path when the
structure has not changed since the snapshot, the slow path otherwise. -/
def recordFlush (flushId snapshotEpoch : UInt64)
    (results : List BucketFlushResult) : List Bucket :=
  if snapshotEpoch = m.structureEpoch ∧ results.length = m.buckets.length then
    List.zipWith (fun b (r : BucketFlushResult) =>
      b.addFlushEvent flushId r.fileCount r.entryCount r.dataBytes r.medianKey) m.buckets results
  else
    List.zipWith (fun b (s : AccumulatedStats) =>
      b.addFlushEvent flushId s.fileCount s.entryCount s.dataBytes (medianOf s.medianKeys))
      m.buckets (results.foldl m.accumulate (List.replicate m.buckets.length ⟨0, 0, 0, []⟩))

/-- `BucketManager::OnFlushCompleted`. -/
def onFlushCompleted (snapshotEpoch : UInt64)
    (results : List BucketFlushResult) : BucketManager :=
  if m.initialized then
    let flushId := m.globalFlushCounter + 1
    let buckets := m.recordFlush flushId snapshotEpoch results
    { m with
      globalFlushCounter := flushId
      buckets := if Bucket.windowSize < flushId
        then buckets.map fun b => b.removeFlushEvent (flushId - Bucket.windowSize)
        else buckets }
  else m

/-- `BucketManager::SplitBucket`. -/
def splitBucket (idx : ℕ) : BucketManager :=
  match m.buckets[idx]? with
  | none => m
  | some b =>
    { m with
      buckets := (m.buckets.set idx b.splitLeft).insertIdx (idx + 1) b.splitRight
      structureEpoch := m.structureEpoch + 1 }

/-- The left one of the two buckets `MergeWithAdjacentBucket` merges: the neighbour with
fewer bytes in the window is taken, the right one on a tie. -/
def mergeLeft (idx : ℕ) : ℕ :=
  if 0 < idx ∧ idx + 1 < m.buckets.length then
    if (m.buckets.getD (idx - 1) (Bucket.ofRange [] [])).windowDataBytes <
        (m.buckets.getD (idx + 1) (Bucket.ofRange [] [])).windowDataBytes
    then idx - 1 else idx
  else if 0 < idx then idx - 1
  else idx

/-- `BucketManager::MergeWithAdjacentBucket`. -/
def mergeWithAdjacentBucket (idx : ℕ) : BucketManager :=
  if idx < m.buckets.length ∧ 1 < m.buckets.length then
    let left := m.mergeLeft idx
    match m.buckets[left]?, m.buckets[left + 1]? with
    | some l, some r =>
      { m with
        buckets := (m.buckets.set left (l.mergeWith r)).eraseIdx (left + 1)
        structureEpoch := m.structureEpoch + 1 }
    | _, _ => m
  else m

end BucketManager

/-- What an adjustment does to one bucket. -/
inductive Adjustment
  | split
  | merge
  | keep
deriving DecidableEq, Repr

namespace BucketManager

section Adjust

variable (D : Type) [Double D]

/-- The decision both adjustment methods take, with their own thresholds. -/
def adjustment (splitFactor mergeFactor : ℚ) (actual expected : D) (bucketCount : ℕ) :
    Adjustment :=
  if Double.lt (Double.lit splitFactor * expected) actual then .split
  else if Double.lt actual (Double.lit mergeFactor * expected) && 1 < bucketCount then .merge
  else .keep

variable (m : BucketManager)

/-- Carries out a decision on the bucket at `idx`. -/
def applyAdjustment (idx : ℕ) : Adjustment → BucketManager
  | .split => m.splitBucket idx
  | .merge => m.mergeWithAdjacentBucket idx
  | .keep => m

/-- `total_window_files`. -/
def totalWindowFiles : UInt64 := (m.buckets.map Bucket.windowFileCount).sum

/-- `total_window_bytes`. -/
def totalWindowBytes : UInt64 := (m.buckets.map Bucket.windowDataBytes).sum

/-- `1.0 / buckets_.size()`. -/
def expectedRatio : D := Double.lit 1 / Double.ofNat m.buckets.length

/-- A bucket's share of a total. -/
def share (part total : UInt64) : D := Double.ofNat part.toNat / Double.ofNat total.toNat

/-- The decision of `AdjustAfterCompaction` for an index in range. Only the share of bytes
counts, against 1.5 and 0.5 times the expected share. -/
def compactionAdjustment (b : Bucket) : Adjustment :=
  if m.totalWindowFiles = 0 || m.totalWindowBytes = 0 then .keep
  else adjustment D (3 / 2) (1 / 2) (share D b.windowDataBytes m.totalWindowBytes)
    (expectedRatio D m) m.buckets.length

/-- `BucketManager::AdjustAfterCompaction`. -/
def adjustAfterCompaction (compactedBucketIdx : ℤ) : Bool × BucketManager :=
  if m.enableBucketAdjustment = some false then (false, m)
  else if compactedBucketIdx < 0 then (false, m)
  else
    match m.buckets[compactedBucketIdx.toNat]? with
    | none => (false, m)
    | some b =>
      let a := compactionAdjustment D m b
      (a ≠ .keep, m.applyAdjustment compactedBucketIdx.toNat a)

/-- The decision of one round of `AdjustBucketsInRange`: files and bytes weigh the same,
against 2 and 0.25 times the expected share. -/
def rangeAdjustment (totalFiles totalBytes : UInt64) (expected : D) (bucketCount : ℕ)
    (b : Bucket) : Adjustment :=
  adjustment D 2 (1 / 4) (Double.lit (1 / 2) * share D b.windowFileCount totalFiles +
      Double.lit (1 / 2) * share D b.windowDataBytes totalBytes) expected bucketCount

/-- One round of the loop of `AdjustBucketsInRange`. The totals stay those computed before
the loop; the expected share is recomputed after every change of the structure, so it is
always the one of the current bucket count. -/
def adjustRound (totalFiles totalBytes : UInt64) (s : Bool × BucketManager) (idx : ℕ) :
    Bool × BucketManager :=
  match s.2.buckets[idx]? with
  | none => s
  | some b =>
    let a := rangeAdjustment D totalFiles totalBytes (expectedRatio D s.2) s.2.buckets.length b
    (s.1 || a ≠ .keep, s.2.applyAdjustment idx a)

/-- `BucketManager::AdjustBucketsInRange`. -/
def adjustBucketsInRange (minKey maxKey : Slice) : Bool × BucketManager :=
  if m.totalWindowFiles = 0 || m.totalWindowBytes = 0 then (false, m)
  else (m.findBucketsInRangeInternal minKey maxKey).reverse.foldl
    (adjustRound D m.totalWindowFiles m.totalWindowBytes) (false, m)

end Adjust

end BucketManager

/-! ## Split points of the first flush -/

/-- `while (iter->Valid() && count < target_count)`: the entries left and their count. -/
def advanceTo (targetCount : ℕ) : ℕ → List Slice → ℕ × List Slice
  | count, [] => (count, [])
  | count, k :: keys =>
    if count < targetCount then advanceTo targetCount (count + 1) keys else (count, k :: keys)

/-- The `for` loop of `WriteBucketLevel0Table` over `i`, with `rounds` rounds left. -/
def splitPointLoop (entriesPerBucket : ℕ) : ℕ → ℕ → ℕ → List Slice → List Slice
  | 0, _, _, _ => []
  | rounds + 1, i, count, keys =>
    match advanceTo (i * entriesPerBucket) count keys with
    | (_, []) => []
    | (count, k :: keys) => k :: splitPointLoop entriesPerBucket rounds (i + 1) count (k :: keys)

/-- The number of entries a bucket should get; a negative count is read as a `uint64_t`. -/
def entriesPerBucket (totalNumInputEntries : ℕ) (targetBucketCount : ℤ) : ℕ :=
  totalNumInputEntries / (targetBucketCount % 2 ^ 64).toNat

/-- The split points the first bucket flush computes from the user keys of the merged
memtable entries, in iteration order. -/
def firstFlushSplitPoints (totalNumInputEntries : ℕ) (targetBucketCount : ℤ)
    (keys : List Slice) : List Slice :=
  if 0 < entriesPerBucket totalNumInputEntries targetBucketCount then
    splitPointLoop (entriesPerBucket totalNumInputEntries targetBucketCount)
      (targetBucketCount - 1).toNat 1 0 keys
  else []

end BucketLSM
