import BucketLSM.Lib.SortedMap
import BucketLSM.Manifest.Consistency

/-!
# The version builder

`VersionBuilder::Rep` (`db/version_builder.cc`) collects the changes of a series of edits over a
base version: the files added to and deleted from each level, the current level of every file the
edits name, and the blob files whose links or garbage change. `SaveTo` merges the changes with the
base into a new version. With `track_found_and_missing_files_` the builder also looks for every
file that is added, and knows whether a valid version can be saved.
-/

namespace BucketLSM.Manifest

open BlobFileMetaData SortedMap

variable {K : Type}

/-! ## Edits -/

structure BlobFileAddition where
  blobFileNumber : ℕ
  totalBlobCount : UInt64
  totalBlobBytes : UInt64
deriving DecidableEq

structure BlobFileGarbage where
  blobFileNumber : ℕ
  garbageBlobCount : UInt64
  garbageBlobBytes : UInt64
deriving DecidableEq

/-- The changes of files in a `VersionEdit`; a deleted file is named by its level and number. -/
structure VersionEdit (K : Type) where
  blobFileAdditions : List BlobFileAddition := []
  blobFileGarbages : List BlobFileGarbage := []
  deletedFiles : List (ℕ × ℕ) := []
  newFiles : List (ℕ × FileMetaData K) := []
  isInAtomicGroup : Bool := false
deriving DecidableEq, Inhabited

/-! ## The base version -/

namespace VersionStorageInfo

variable (v : VersionStorageInfo K)

/-- `GetFileLocation`, with the file at the location. -/
def findFile (n : ℕ) : Option (ℕ × FileMetaData K) :=
  (List.range v.numLevels).findSome? fun level =>
    ((v.levelFiles level).find? fun f => f.number = n).map fun f => (level, f)

/-- `GetBlobFileMetaData`. -/
def getBlobFileMetaData (n : ℕ) : Option BlobFileMetaData :=
  SortedMap.find BlobFileMetaData.blobFileNumber n v.blobFiles

/-- `HasMissingEpochNumber`. -/
def hasMissingEpochNumber : Bool :=
  v.files.any fun files => files.any fun f => f.epochNumber = unknownEpochNumber

/-- A version that has just been created. -/
def fresh (numLevels : ℕ) (requirement : EpochNumberRequirement) (force : Bool) :
    VersionStorageInfo K :=
  ⟨List.replicate numLevels [], [], requirement, force⟩

end VersionStorageInfo

/-! ## The changes -/

/-- `LevelState`. The added files are kept by file number, in no particular order. -/
structure LevelState (K : Type) where
  deletedFiles : Finset ℕ := ∅
  addedFiles : List (FileMetaData K) := []

/-- The added file with a number. -/
def LevelState.findAdded (l : LevelState K) (n : ℕ) : Option (FileMetaData K) :=
  l.addedFiles.find? fun f => f.number = n

/-- `BlobFileMetaDataDelta`. -/
structure BlobFileMetaDataDelta where
  additionalGarbageCount : UInt64 := 0
  additionalGarbageBytes : UInt64 := 0
  newlyLinkedSsts : Finset ℕ := ∅
  newlyUnlinkedSsts : Finset ℕ := ∅
deriving DecidableEq

namespace BlobFileMetaDataDelta

variable (d : BlobFileMetaDataDelta)

def isEmpty : Bool :=
  d.additionalGarbageCount = 0 && d.additionalGarbageBytes = 0 &&
    d.newlyLinkedSsts = ∅ && d.newlyUnlinkedSsts = ∅

def addGarbage (count bytes : UInt64) : BlobFileMetaDataDelta :=
  { d with
    additionalGarbageCount := d.additionalGarbageCount + count
    additionalGarbageBytes := d.additionalGarbageBytes + bytes }

def linkSst (n : ℕ) : BlobFileMetaDataDelta :=
  if n ∈ d.newlyUnlinkedSsts then { d with newlyUnlinkedSsts := d.newlyUnlinkedSsts.erase n }
  else { d with newlyLinkedSsts := insert n d.newlyLinkedSsts }

def unlinkSst (n : ℕ) : BlobFileMetaDataDelta :=
  if n ∈ d.newlyLinkedSsts then { d with newlyLinkedSsts := d.newlyLinkedSsts.erase n }
  else { d with newlyUnlinkedSsts := insert n d.newlyUnlinkedSsts }

end BlobFileMetaDataDelta

/-- `MutableBlobFileMetaData`: the blob file after the changes, and the changes. -/
structure MutableBlobFileMetaData where
  state : BlobFileMetaData
  delta : BlobFileMetaDataDelta := {}
deriving DecidableEq

open MutableBlobFileMetaData

namespace MutableBlobFileMetaData

def blobFileNumber (m : MutableBlobFileMetaData) : ℕ := m.state.blobFileNumber

def hasDelta (m : MutableBlobFileMetaData) : Bool := !m.delta.isEmpty

/-- `AddGarbage`; the sums are those of 64-bit numbers. -/
def addGarbage (m : MutableBlobFileMetaData) (count bytes : UInt64) :
    Option MutableBlobFileMetaData :=
  if m.state.totalBlobCount < m.state.garbageBlobCount + count ∨
      m.state.totalBlobBytes < m.state.garbageBlobBytes + bytes then none
  else some
    { state :=
        { m.state with
          garbageBlobCount := m.state.garbageBlobCount + count
          garbageBlobBytes := m.state.garbageBlobBytes + bytes }
      delta := m.delta.addGarbage count bytes }

def linkSst (m : MutableBlobFileMetaData) (n : ℕ) : MutableBlobFileMetaData :=
  { state := { m.state with linkedSsts := insert n m.state.linkedSsts }
    delta := m.delta.linkSst n }

def unlinkSst (m : MutableBlobFileMetaData) (n : ℕ) : MutableBlobFileMetaData :=
  { state := { m.state with linkedSsts := m.state.linkedSsts.erase n }
    delta := m.delta.unlinkSst n }

end MutableBlobFileMetaData

/-- What the edit handler finds when it looks for a file, by `VerifyFile` and `VerifyBlobFile`. -/
structure FileVerifier (K : Type) where
  verifyFile : ℕ → FileMetaData K → Status
  verifyBlobFile : BlobFileAddition → Status

/-- The file is not found, or it is not the file the manifest describes. -/
def isMissing : Status → Bool
  | .notFound => true
  | .corruption => true
  | _ => false

/-- `VersionBuilder::Rep`. In `tableFileLevels` a file the edits name has its current level, which
is `none` if the file is deleted; `invalidLevelSizes` has a level from `num_levels_` on as often as
there are files on it. -/
structure Rep (K : Type) where
  base : VersionStorageInfo K
  levels : ℕ → LevelState K := fun _ => {}
  invalidLevelSizes : Multiset ℕ := 0
  hasInvalidLevels : Bool := false
  tableFileLevels : ℕ → Option (Option ℕ) := fun _ => none
  mutableBlobFileMetas : List MutableBlobFileMetaData := []
  handler : FileVerifier K
  trackFoundAndMissingFiles : Bool := false
  allowIncompleteValidVersion : Bool := false
  foundFiles : Finset ℕ := ∅
  l0MissingFiles : Finset ℕ := ∅
  nonL0MissingFiles : Finset ℕ := ∅
  intermediateFiles : List ℕ := []
  missingBlobFilesHigh : ℕ := invalidBlobFileNumber
  missingBlobFiles : Finset ℕ := ∅
  validVersionAvailable : Bool := true
  editedInAtomicGroup : Bool := false
  versionUpdatedSinceLastCheck : Bool := false

namespace Rep

def numLevels (b : Rep K) : ℕ := b.base.numLevels

variable (b : Rep K)

/-- `CheckConsistencyForNumLevels`. -/
def checkConsistencyForNumLevels : Bool :=
  !b.hasInvalidLevels && b.invalidLevelSizes = 0

/-! ### Blob files -/

/-- The mutable blob file with a number. -/
def findMutable (n : ℕ) : Option MutableBlobFileMetaData :=
  SortedMap.find MutableBlobFileMetaData.blobFileNumber n b.mutableBlobFileMetas

/-- `IsBlobFileInVersion`. -/
def isBlobFileInVersion (n : ℕ) : Bool :=
  (b.findMutable n).isSome || (b.base.getBlobFileMetaData n).isSome

/-- What `GetOrCreateMutableBlobFileMetaData` returns. -/
def getMutable (n : ℕ) : Option MutableBlobFileMetaData :=
  match b.findMutable n with
  | some m => some m
  | none => (b.base.getBlobFileMetaData n).map fun state => { state }

/-- The mutable blob file is changed, or entered into the map. -/
def putMutable (m : MutableBlobFileMetaData) : Rep K :=
  { b with
    mutableBlobFileMetas :=
      SortedMap.put MutableBlobFileMetaData.blobFileNumber m b.mutableBlobFileMetas }

/-- A change of the blob file that a table file names, if it names one that is there. -/
def modifyBlobFile (n : ℕ)
    (change : MutableBlobFileMetaData → MutableBlobFileMetaData) : Rep K :=
  if n = invalidBlobFileNumber then b
  else
    match b.getMutable n with
    | some m => b.putMutable (change m)
    | none => b

/-- `ApplyBlobFileAddition`. -/
def applyBlobFileAddition (addition : BlobFileAddition) (b : Rep K) : Status × Rep K :=
  if b.isBlobFileInVersion addition.blobFileNumber then (.corruption, b)
  else
    let b := b.putMutable
      { state := ⟨addition.blobFileNumber, addition.totalBlobCount, addition.totalBlobBytes, ∅, 0,
          0⟩ }
    if b.trackFoundAndMissingFiles then
      let s := b.handler.verifyBlobFile addition
      if isMissing s then
        (.ok, { b with
          missingBlobFilesHigh := max b.missingBlobFilesHigh addition.blobFileNumber
          missingBlobFiles := insert addition.blobFileNumber b.missingBlobFiles })
      else (s, b)
    else (.ok, b)

/-- `ApplyBlobFileGarbage`. -/
def applyBlobFileGarbage (garbage : BlobFileGarbage) (b : Rep K) : Status × Rep K :=
  match b.getMutable garbage.blobFileNumber with
  | none => (.corruption, b)
  | some m =>
    match m.addGarbage garbage.garbageBlobCount garbage.garbageBlobBytes with
    | none => (.corruption, b.putMutable m)
    | some m => (.ok, b.putMutable m)

/-! ### Table files -/

/-- `GetCurrentLevelForTableFile`. -/
def getCurrentLevelForTableFile (n : ℕ) : Option ℕ :=
  match b.tableFileLevels n with
  | some level => level
  | none => (b.base.findFile n).map Prod.fst

/-- `GetOldestBlobFileNumberForTableFile`. -/
def getOldestBlobFileNumberForTableFile (level n : ℕ) : ℕ :=
  match (b.levels level).findAdded n with
  | some f => f.oldestBlobFileNumber
  | none =>
    match b.base.findFile n with
    | some (_, f) => f.oldestBlobFileNumber
    | none => invalidBlobFileNumber

/-- The files of a level are changed. -/
def setLevel (level : ℕ) (state : LevelState K) : Rep K :=
  { b with levels := Function.update b.levels level state }

/-- The current level of a file is changed. -/
def setTableFileLevel (n : ℕ) (level : Option ℕ) : Rep K :=
  { b with tableFileLevels := Function.update b.tableFileLevels n (some level) }

/-- The missing files and the found files, once a file is deleted. -/
def forgetFile (n : ℕ) : Rep K :=
  if n ∈ b.l0MissingFiles then { b with l0MissingFiles := b.l0MissingFiles.erase n }
  else if n ∈ b.nonL0MissingFiles then { b with nonL0MissingFiles := b.nonL0MissingFiles.erase n }
  else if n ∈ b.foundFiles then
    { b with
      intermediateFiles := b.intermediateFiles ++ [n]
      foundFiles := b.foundFiles.erase n }
  else b

/-- The file is taken off its level, and off the links of its blob file. -/
def removeFile (level n : ℕ) : Rep K :=
  let b := b.modifyBlobFile (b.getOldestBlobFileNumberForTableFile level n) (·.unlinkSst n)
  (b.setLevel level
    { deletedFiles := insert n (b.levels level).deletedFiles
      addedFiles := (b.levels level).addedFiles.filter fun f => f.number ≠ n }).setTableFileLevel
    n none

/-- `ApplyFileDeletion`. -/
def applyFileDeletion (deleted : ℕ × ℕ) (b : Rep K) : Status × Rep K :=
  let level := deleted.1
  let n := deleted.2
  if b.getCurrentLevelForTableFile n ≠ some level then
    (.corruption, { b with hasInvalidLevels := b.hasInvalidLevels || b.numLevels ≤ level })
  else if b.numLevels ≤ level then
    (.ok, { b.setTableFileLevel n none with invalidLevelSizes := b.invalidLevelSizes.erase level })
  else
    let b := b.removeFile level n
    (.ok, if b.trackFoundAndMissingFiles then b.forgetFile n else b)

/-- A missing file is entered as such; a damaged one is found and missing. -/
def missFile (level n : ℕ) (s : Status) : Rep K :=
  let b := if level = 0 then { b with l0MissingFiles := insert n b.l0MissingFiles }
    else { b with nonL0MissingFiles := insert n b.nonL0MissingFiles }
  if s = .corruption then { b with foundFiles := insert n b.foundFiles } else b

/-- The file is looked for. -/
def trackFile (level : ℕ) (f : FileMetaData K) : Status × Rep K :=
  let s := b.handler.verifyFile level f
  if isMissing s then (.ok, b.missFile level f.number s)
  else if s = .ok then (.ok, { b with foundFiles := insert f.number b.foundFiles })
  else (s, b)

/-- The file is put on a level, and into the links of its blob file. -/
def insertFile (level : ℕ) (f : FileMetaData K) : Rep K :=
  let state := b.levels level
  let b := b.setLevel level
    { deletedFiles := state.deletedFiles.erase f.number
      addedFiles := if (state.findAdded f.number).isSome then state.addedFiles
        else f :: state.addedFiles }
  (b.modifyBlobFile f.oldestBlobFileNumber (·.linkSst f.number)).setTableFileLevel f.number
    (some level)

/-- `ApplyFileAddition`. -/
def applyFileAddition (added : ℕ × FileMetaData K) (b : Rep K) : Status × Rep K :=
  let level := added.1
  let f := added.2
  if (b.getCurrentLevelForTableFile f.number).isSome then
    (.corruption, { b with hasInvalidLevels := b.hasInvalidLevels || b.numLevels ≤ level })
  else if b.numLevels ≤ level then
    (.ok, { b.setTableFileLevel f.number (some level) with
      invalidLevelSizes := level ::ₘ b.invalidLevelSizes })
  else
    let b := b.insertFile level f
    if b.trackFoundAndMissingFiles then b.trackFile level f else (.ok, b)

/-! ### Edits -/

/-- A loop that stops at the first failure. -/
def forEach {α S : Type} (step : α → S → Status × S) : List α → S → Status × S
  | [], s => (.ok, s)
  | a :: rest, s =>
    match step a s with
    | (.ok, s) => forEach step rest s
    | failed => failed

/-- The changes of an edit, in the order of `Apply`. -/
def applyChanges (edit : VersionEdit K) (b : Rep K) : Status × Rep K :=
  match forEach applyBlobFileAddition edit.blobFileAdditions b with
  | (.ok, b) =>
    match forEach applyBlobFileGarbage edit.blobFileGarbages b with
    | (.ok, b) =>
      match forEach applyFileDeletion edit.deletedFiles b with
      | (.ok, b) => forEach applyFileAddition edit.newFiles b
      | failed => failed
    | failed => failed
  | failed => failed

/-- `version_updated` at the end of `Apply`. -/
def versionUpdated (edit : VersionEdit K) : Bool :=
  edit.blobFileAdditions ≠ [] || edit.blobFileGarbages ≠ [] || edit.deletedFiles ≠ [] ||
    edit.newFiles ≠ []

variable [LinearOrder K]

/-- `Apply`. -/
def apply (edit : VersionEdit K) (b : Rep K) : Status × Rep K :=
  match checkConsistency b.base with
  | .ok =>
    match applyChanges edit b with
    | (.ok, b) =>
      if b.trackFoundAndMissingFiles ∧ versionUpdated edit then
        (.ok, { b with
          versionUpdatedSinceLastCheck := true
          editedInAtomicGroup := b.editedInAtomicGroup || edit.isInAtomicGroup })
      else (.ok, b)
    | failed => failed
  | failed => (failed, b)

/-! ### Saving table files -/

/-- A file in the merge comes from the base or from the added files. -/
inductive Origin
  | base
  | added
deriving DecidableEq

/-- The loop of `MergeUnorderdAddedFilesWithBase` over the sorted added files and the base. -/
def mergeFiles (cmp : FileMetaData K → FileMetaData K → Bool) :
    List (Origin × FileMetaData K) → List (Origin × FileMetaData K) → List (Origin × FileMetaData K)
  | [], base => base
  | a :: added, [] => a :: added
  | a :: added, f :: base =>
    if cmp a.2 f.2 then a :: mergeFiles cmp added (f :: base)
    else f :: mergeFiles cmp (a :: added) base
termination_by added base => added.length + base.length

/-- `std::sort` with a comparator. -/
def sortFiles (cmp : FileMetaData K → FileMetaData K → Bool) (files : List (FileMetaData K)) :
    List (FileMetaData K) :=
  files.insertionSort fun f g => cmp g f = false

/-- `MergeUnorderdAddedFilesWithBase`: the files in the order they are handed on. -/
def mergeUnorderedAddedFilesWithBase (cmp : FileMetaData K → FileMetaData K → Bool)
    (base added : List (FileMetaData K)) : List (Origin × FileMetaData K) :=
  mergeFiles cmp ((sortFiles cmp added).map (Prod.mk .added)) (base.map (Prod.mk .base))

/-- `MaybeAddFile` adds the file. -/
def maybeAddFile (level : ℕ) (file : Origin × FileMetaData K) : Bool :=
  let n := file.2.number
  !(b.trackFoundAndMissingFiles && level = 0 && n ∈ b.l0MissingFiles) &&
    n ∉ (b.levels level).deletedFiles && !(file.1 = .base && ((b.levels level).findAdded n).isSome)

/-- `SaveSSTFilesTo` for one level: the files that are added to the version. -/
def saveLevel (level : ℕ) (cmp : FileMetaData K → FileMetaData K → Bool) :
    List (FileMetaData K) :=
  ((mergeUnorderedAddedFilesWithBase cmp (b.base.levelFiles level)
    (b.levels level).addedFiles).filter (b.maybeAddFile level)).map Prod.snd

/-- `PromoteEpochNumberRequirementIfNeeded`. -/
def promoteEpochNumberRequirementIfNeeded (v : VersionStorageInfo K) :
    VersionStorageInfo K :=
  if v.hasMissingEpochNumber then v
  else if (List.range b.numLevels).any fun level =>
      (b.levels level).addedFiles.any fun f => f.epochNumber = unknownEpochNumber then v
  else { v with epochNumberRequirement := .mustPresent }

/-- The order of L0 in a version. -/
def levelZeroCmp (requirement : EpochNumberRequirement) : FileMetaData K → FileMetaData K → Bool :=
  match requirement with
  | .mightMissing => newestFirstBySeqNo
  | .mustPresent => newestFirstByEpochNumber

/-- The order of the files in a level. -/
def levelCmp (requirement : EpochNumberRequirement) (level : ℕ) :
    FileMetaData K → FileMetaData K → Bool :=
  if level = 0 then levelZeroCmp requirement else bySmallestKey

/-- `SaveSSTFilesTo`. -/
def saveSSTFilesTo (b : Rep K) (v : VersionStorageInfo K) : VersionStorageInfo K :=
  let v := match v.epochNumberRequirement with
    | .mightMissing => b.promoteEpochNumberRequirementIfNeeded v
    | .mustPresent => v
  { v with
    files := (List.range b.numLevels).map fun level =>
      v.levelFiles level ++ b.saveLevel level (levelCmp v.epochNumberRequirement level) }

/-! ### Saving blob files -/

/-- A blob file of the base, or of the changes, or of both. -/
abbrev BlobFileEntry := SortedMap.Join BlobFileMetaData MutableBlobFileMetaData

/-- `MergeBlobFileMetas`: the entries in the order they are handed on. -/
def mergeBlobFileMetas (first : ℕ) : List BlobFileEntry :=
  SortedMap.outerJoin BlobFileMetaData.blobFileNumber MutableBlobFileMetaData.blobFileNumber
    (SortedMap.lowerBound BlobFileMetaData.blobFileNumber first b.base.blobFiles)
    (SortedMap.lowerBound MutableBlobFileMetaData.blobFileNumber first b.mutableBlobFileMetas)

/-- The blob file after the changes. -/
def current : BlobFileEntry → BlobFileMetaData
  | .left base => base
  | .right m => m.state
  | .both _ m => m.state

/-- `GetMinOldestBlobFileNumber`. -/
def getMinOldestBlobFileNumber : ℕ :=
  match (b.mergeBlobFileMetas invalidBlobFileNumber).find?
      fun entry => (current entry).linkedSsts ≠ ∅ with
  | some entry => (current entry).blobFileNumber
  | none => invalidBlobFileNumber

/-- `OnlyLinkedToMissingL0Files`. -/
def onlyLinkedToMissingL0Files (linked : Finset ℕ) : Bool :=
  linked ⊆ b.l0MissingFiles

/-- `AddBlobFileIfNeeded` adds the blob file. -/
def addBlobFileIfNeeded (blob : BlobFileMetaData) : Bool :=
  !(b.trackFoundAndMissingFiles && (blob.blobFileNumber ∈ b.missingBlobFiles ||
    blob.linkedSsts ≠ ∅ && b.onlyLinkedToMissingL0Files blob.linkedSsts)) &&
  !(blob.linkedSsts = ∅ && blob.totalBlobCount ≤ blob.garbageBlobCount)

/-- The blob file that is handed to `AddBlobFileIfNeeded`. -/
def saved : BlobFileEntry → BlobFileMetaData
  | .left base => base
  | .right m => m.state
  | .both base m => if m.hasDelta then m.state else base

/-- `SaveBlobFilesTo`. -/
def saveBlobFilesTo (v : VersionStorageInfo K) : VersionStorageInfo K :=
  let oldest := b.getMinOldestBlobFileNumber
  if oldest = invalidBlobFileNumber then v
  else { v with
    blobFiles := v.blobFiles ++
      ((b.mergeBlobFileMetas oldest).map saved).filter b.addBlobFileIfNeeded }

/-- `SaveTo`, in a release build. -/
def saveTo (b : Rep K) (v : VersionStorageInfo K) : Status × VersionStorageInfo K :=
  match checkConsistency v with
  | .ok =>
    let v := b.saveBlobFilesTo (b.saveSSTFilesTo v)
    (checkConsistency v, v)
  | failed => (failed, v)

/-! ### Valid versions -/

/-- `ContainsCompleteVersion`. -/
def containsCompleteVersion : Bool :=
  b.l0MissingFiles = ∅ && b.nonL0MissingFiles = ∅ &&
    (b.missingBlobFilesHigh = invalidBlobFileNumber ||
      b.missingBlobFilesHigh < b.getMinOldestBlobFileNumber)

/-- The loop of `MissingL0FilesAreL0Suffix`. -/
def missingComeFirst (missing : Finset ℕ) : List ℕ → Finset ℕ → Bool
  | [], _ => true
  | n :: rest, unaddressed =>
    if n ∈ missing then missingComeFirst missing rest (unaddressed.erase n)
    else unaddressed = ∅

/-- `MissingL0FilesAreL0Suffix`. -/
def missingL0FilesAreL0Suffix : Bool :=
  missingComeFirst b.l0MissingFiles
    ((mergeUnorderedAddedFilesWithBase (levelZeroCmp b.base.epochNumberRequirement)
      (b.base.levelFiles 0) (b.levels 0).addedFiles).map fun file => file.2.number) b.l0MissingFiles

/-- `RemainingSstFilesNotMissingBlobFiles`. -/
def remainingSstFilesNotMissingBlobFiles : Bool :=
  ∀ missing ∈ b.missingBlobFiles, missing < b.getMinOldestBlobFileNumber ∨
    ∀ m ∈ b.findMutable missing, ¬ (m.state.linkedSsts ≠ ∅ ∧ b.l0MissingFiles = ∅) ∧
      b.onlyLinkedToMissingL0Files m.state.linkedSsts

/-- `OnlyMissingL0Suffix`. -/
def onlyMissingL0Suffix : Bool :=
  b.nonL0MissingFiles = ∅ && (b.l0MissingFiles = ∅ || b.missingL0FilesAreL0Suffix) &&
    (b.missingBlobFiles = ∅ || b.remainingSstFilesNotMissingBlobFiles)

/-- The value `ValidVersionAvailable` computes. -/
def computeValidVersionAvailable : Bool :=
  b.containsCompleteVersion ||
    !b.editedInAtomicGroup && b.allowIncompleteValidVersion && b.onlyMissingL0Suffix

/-- The builder after a call of `ValidVersionAvailable`, which returns the new value of
`valid_version_available_`. -/
def updateValidVersionAvailable : Rep K :=
  if b.versionUpdatedSinceLastCheck then
    { b with
      validVersionAvailable := b.computeValidVersionAvailable
      versionUpdatedSinceLastCheck := false }
  else b

end Rep

end BucketLSM.Manifest
