import BucketLSM.Format
import Mathlib

/-!
# The files of a version

`VersionStorageInfo` as the compaction picker sees it: the table files of each level with
their key ranges, sizes and `being_compacted` flags, the level scores and the files marked
for compaction, together with the queries for the files of a level that overlap a range.
-/

namespace BucketLSM

/-- The fields of `FileMetaData` the picker reads. Pointers to one file are told apart by
its number. -/
structure FileMetaData (K : Type) [LinearOrder K] where
  number : ℕ
  smallest : InternalKey K
  largest : InternalKey K
  epochNumber : ℕ
  fileSize : ℕ
  compensatedFileSize : ℕ
  beingCompacted : Bool
  markedForCompaction : Bool
  oldestAncesterTime : ℕ
  fileCreationTime : ℕ
  largestSeqno : ℕ
  smallest_le_largest : smallest ≤ largest
deriving DecidableEq

namespace FileMetaData

variable {K : Type} [LinearOrder K]

lemma userKey_le (f : FileMetaData K) : f.smallest.userKey ≤ f.largest.userKey :=
  InternalKey.userKey_le f.smallest_le_largest

/-- The closed user-key ranges of two files have a user key in common. -/
def OverlapsUserKeys (f g : FileMetaData K) : Prop :=
  f.smallest.userKey ≤ g.largest.userKey ∧ g.smallest.userKey ≤ f.largest.userKey

/-- The closed internal-key ranges of two files meet. -/
def OverlapsInternalKeys (f g : FileMetaData K) : Prop :=
  f.smallest ≤ g.largest ∧ g.smallest ≤ f.largest

instance (f g : FileMetaData K) : Decidable (f.OverlapsUserKeys g) :=
  inferInstanceAs (Decidable (_ ∧ _))

instance (f g : FileMetaData K) : Decidable (f.OverlapsInternalKeys g) :=
  inferInstanceAs (Decidable (_ ∧ _))

variable {f g : FileMetaData K}

lemma OverlapsUserKeys.symm (h : f.OverlapsUserKeys g) : g.OverlapsUserKeys f := ⟨h.2, h.1⟩

lemma OverlapsInternalKeys.symm (h : f.OverlapsInternalKeys g) :
    g.OverlapsInternalKeys f := ⟨h.2, h.1⟩

lemma OverlapsInternalKeys.overlapsUserKeys (h : f.OverlapsInternalKeys g) : f.OverlapsUserKeys g :=
  ⟨InternalKey.userKey_le h.1, InternalKey.userKey_le h.2⟩

end FileMetaData

/-- `TotalFileSize`. -/
def totalFileSize {K : Type} [LinearOrder K] (files : List (FileMetaData K)) : ℕ :=
  (files.map FileMetaData.fileSize).sum

/-- Level 0, listed newest first as `NewestFirstByEpochNumber` sorts it. -/
structure Level0 (K : Type) [LinearOrder K] where
  files : List (FileMetaData K)
  newest_first : files.Pairwise fun f g => g.epochNumber ≤ f.epochNumber
  numbers_nodup : (files.map FileMetaData.number).Nodup

/-- The lists of marked files `ComputeCompactionScore` leaves, with the level of each. -/
structure MarkedFiles (K : Type) [LinearOrder K] where
  forCompaction : List (ℕ × FileMetaData K)
  bottommost : List (ℕ × FileMetaData K)
  expiredTtl : List (ℕ × FileMetaData K)
  periodic : List (ℕ × FileMetaData K)
  forcedBlobGC : List (ℕ × FileMetaData K)

/-- All the marked files. -/
def MarkedFiles.all {K : Type} [LinearOrder K] (m : MarkedFiles K) : List (ℕ × FileMetaData K) :=
  m.forCompaction ++ m.bottommost ++ m.expiredTtl ++ m.periodic ++ m.forcedBlobGC

/-- The files of a version, and what `ComputeCompactionScore` has computed from them: the
levels with their scores, highest first, and the marked files. A marked file is a file of
its level that is not being compacted. -/
structure VersionStorageInfo (K D : Type) [LinearOrder K] where
  level0 : Level0 K
  /-- The files of levels 1, 2, and so on, each level by increasing keys. -/
  levels : List (List (FileMetaData K))
  baseLevel : ℕ
  compactionScore : List (ℕ × D)
  filesByCompactionPri : ℕ → List ℕ
  nextCompactionIndex : ℕ → ℕ
  maxBytesForLevel : ℕ → ℕ
  marked : MarkedFiles K
  numbers_nodup : ((level0.files ++ levels.flatten).map FileMetaData.number).Nodup
  marked_active : ∀ p ∈ marked.all, p.2 ∈ (level0.files :: levels).getD p.1 [] ∧
    p.2.beingCompacted = false

/-- `sstableKeyCompare`: user keys first; the end of a range tombstone comes before the
entries of its user key, which all compare equal. -/
def sstableKeyCompare {K : Type} [LinearOrder K] (a b : InternalKey K) : Ordering :=
  if a.userKey < b.userKey then .lt
  else if b.userKey < a.userKey then .gt
  else if a.footer = rangeTombstoneSentinel then
    if b.footer ≠ rangeTombstoneSentinel then .lt else .eq
  else if b.footer = rangeTombstoneSentinel then .gt
  else .eq

/-- `std::lower_bound`, the partition point of a list: the number of leading elements that
satisfy the predicate. -/
def partitionPoint {α : Type*} (p : α → Bool) (l : List α) : ℕ := (l.takeWhile p).length

namespace VersionStorageInfo

variable {K D : Type} [LinearOrder K] (vs : VersionStorageInfo K D)

/-- `LevelFiles(level)`. -/
def levelFiles (level : ℕ) : List (FileMetaData K) :=
  (vs.level0.files :: vs.levels).getD level []

/-- The number of levels up to the last one with files. -/
def countNonEmpty : List (List (FileMetaData K)) → ℕ
  | [] => 0
  | level :: rest => if countNonEmpty rest = 0 ∧ level = [] then 0 else countNonEmpty rest + 1

/-- `num_non_empty_levels`. -/
def numNonEmptyLevels : ℕ :=
  countNonEmpty (vs.level0.files :: vs.levels)

/-! ### Overlapping files above level 0 -/

/-- The lower end moves up past files that share a boundary with the file before them. -/
def advanceStart (files : List (FileMetaData K)) : ℕ → ℕ → ℕ
  | 0, start => start
  | fuel + 1, start =>
    match files[start - 1]?, files[start]? with
    | some pre, some cur =>
      if sstableKeyCompare pre.largest cur.smallest = .eq then advanceStart files fuel (start + 1)
      else start
    | _, _ => start

/-- The upper end moves down past files that share a boundary with the file after them. -/
def retreatEnd (files : List (FileMetaData K)) (start : ℕ) : ℕ → ℕ → ℕ
  | 0, stop => stop
  | fuel + 1, stop =>
    if start < stop then
      match files[stop - 1]?, files[stop]? with
      | some cur, some next =>
        if sstableKeyCompare cur.largest next.smallest = .eq then
          retreatEnd files start fuel (stop - 1)
        else stop
      | _, _ => stop
    else stop

/-- `GetOverlappingInputsRangeBinarySearch`: the files of a level that overlap
`[begin, end]`, or the clean run of files within it, and the index of the first one. -/
def getOverlappingInputsRangeBinarySearch (files : List (FileMetaData K))
    (smallest largest : InternalKey K) (hintIndex : Option ℕ) (withinInterval : Bool) :
    List (FileMetaData K) × Option ℕ :=
  let lower := partitionPoint
    (fun f => sstableKeyCompare (if withinInterval then f.smallest else f.largest) smallest = .lt)
    (files.take (hintIndex.getD files.length))
  let start := if 0 < lower ∧ withinInterval then advanceStart files files.length lower else lower
  let upper := start + partitionPoint
    (fun f => ¬ sstableKeyCompare largest (if withinInterval then f.largest else f.smallest) = .lt)
    (files.drop start)
  let stop := if upper < files.length ∧ withinInterval then
    retreatEnd files start files.length upper else upper
  if start = stop then ([], none) else ((files.take stop).drop start, some start)

/-! ### Overlapping files of level 0 -/

/-- One pass over the files of level 0 not taken yet, with their indices. Taking a file may
widen the user-key range at once. -/
def level0Pass (expandRange : Bool) : K × K → List (ℕ × FileMetaData K) →
    List (ℕ × FileMetaData K) × List (ℕ × FileMetaData K) × (K × K)
  | range, [] => ([], [], range)
  | range, (i, f) :: index =>
    if f.largest.userKey < range.1 ∨ range.2 < f.smallest.userKey then
      let (taken, left, range') := level0Pass expandRange range index
      (taken, (i, f) :: left, range')
    else
      let wider := if expandRange then
        (min f.smallest.userKey range.1, max f.largest.userKey range.2) else range
      let (taken, left, range') := level0Pass expandRange wider index
      ((i, f) :: taken, left, range')

/-- Passes are made until one takes no file. -/
def level0Passes (expandRange : Bool) : ℕ → K × K → List (ℕ × FileMetaData K) →
    List (ℕ × FileMetaData K)
  | 0, _, _ => []
  | fuel + 1, range, index =>
    match level0Pass expandRange range index with
    | ([], _, _) => []
    | (taken, left, range') => taken ++ level0Passes expandRange fuel range' left

/-- `GetOverlappingInputs` with both ends given. It leaves the inputs alone if the level is
empty, and they are empty then wherever the picker calls it. -/
def getOverlappingInputs (level : ℕ)
    (smallest largest : InternalKey K) (hintIndex : Option ℕ) (expandRange : Bool) :
    List (FileMetaData K) × Option ℕ :=
  if vs.numNonEmptyLevels ≤ level then ([], hintIndex)
  else if 0 < level then
    getOverlappingInputsRangeBinarySearch (vs.levelFiles level) smallest largest hintIndex false
  else
    let files := vs.levelFiles level
    let taken := level0Passes expandRange (files.length + 1) (smallest.userKey, largest.userKey)
      (files.mapIdx fun i f => (i, f))
    (taken.map Prod.snd, taken.head?.map Prod.fst)

/-- `GetCleanInputsWithinInterval`, for levels above 0. -/
def getCleanInputsWithinInterval (level : ℕ)
    (smallest largest : InternalKey K) (hintIndex : Option ℕ) : List (FileMetaData K) :=
  if vs.numNonEmptyLevels ≤ level ∨ level = 0 ∨ vs.levelFiles level = [] then []
  else (getOverlappingInputsRangeBinarySearch (vs.levelFiles level) smallest largest hintIndex
    true).1

end VersionStorageInfo

end BucketLSM
