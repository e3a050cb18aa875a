import BucketLSM.Bytes
import BucketLSM.Lib.Wire

/-!
# The bytes of a version edit

`db/version_edit.cc`, `db/wal_edit.cc`, `db/blob/blob_file_addition.cc` and
`db/blob/blob_file_garbage.cc`: a version edit is a sequence of tagged records. The record of a new
file ends in a list of custom fields, each with a tag and a length, up to a terminating tag.
-/

namespace BucketLSM.EditCodec

open BucketLSM.Lib BucketLSM.Lib.Wire

/-- `uint32_t`. -/
abbrev U32 := Fin (2 ^ 32)

instance neZero_u32Size : @NeZero ℕ Zero.ofOfNat0 (2 ^ 32) := ⟨by decide⟩

/-- `uint64_t`. -/
abbrev U64 := Fin (2 ^ 64)

instance neZero_u64Size : @NeZero ℕ Zero.ofOfNat0 (2 ^ 64) := ⟨by decide⟩

/-- `int`, for levels. -/
abbrev Level := { z : ℤ // -2 ^ 31 ≤ z ∧ z < 2 ^ 31 }

/-- The cast of a level to `uint32_t`. -/
def Level.toU32 (level : Level) : U32 :=
  ⟨(level.val % 2 ^ 32).toNat, by omega⟩

/-- The cast back. -/
def Level.ofU32 (v : U32) : Level :=
  if h : v.val < 2 ^ 31 then ⟨v.val, by omega⟩ else ⟨v.val - 2 ^ 32, by omega⟩

/-! ## Records and their tags -/

/-- The tags of `DecodeFrom`, without the mask. -/
inductive Tag where
  | kComparator | kLogNumber | kNextFileNumber | kLastSequence | kCompactCursor | kDeletedFile
  | kNewFile | kPrevLogNumber | kMinLogNumberToKeep | kNewFile2 | kNewFile3 | kNewFile4
  | kColumnFamily | kColumnFamilyAdd | kColumnFamilyDrop | kMaxColumnFamily | kInAtomicGroup
  | kBlobFileAddition | kBlobFileGarbage | kDbId | kBlobFileAdditionDeprecated
  | kBlobFileGarbageDeprecated | kWalAddition | kWalDeletion | kFullHistoryTsLow | kWalAddition2
  | kWalDeletion2 | kPersistUserDefinedTimestamps
deriving DecidableEq, Repr

def kTagSafeIgnoreMask : ℕ := 2 ^ 13

namespace Tag

def value : Tag → ℕ
  | kComparator => 1
  | kLogNumber => 2
  | kNextFileNumber => 3
  | kLastSequence => 4
  | kCompactCursor => 5
  | kDeletedFile => 6
  | kNewFile => 7
  | kPrevLogNumber => 9
  | kMinLogNumberToKeep => 10
  | kNewFile2 => 100
  | kNewFile3 => 102
  | kNewFile4 => 103
  | kColumnFamily => 200
  | kColumnFamilyAdd => 201
  | kColumnFamilyDrop => 202
  | kMaxColumnFamily => 203
  | kInAtomicGroup => 300
  | kBlobFileAddition => 400
  | kBlobFileGarbage => 401
  | kDbId => 8193
  | kBlobFileAdditionDeprecated => 8194
  | kBlobFileGarbageDeprecated => 8195
  | kWalAddition => 8196
  | kWalDeletion => 8197
  | kFullHistoryTsLow => 8198
  | kWalAddition2 => 8199
  | kWalDeletion2 => 8200
  | kPersistUserDefinedTimestamps => 8201

def all : List Tag :=
  [kComparator, kLogNumber, kNextFileNumber, kLastSequence, kCompactCursor, kDeletedFile, kNewFile,
    kPrevLogNumber, kMinLogNumberToKeep, kNewFile2, kNewFile3, kNewFile4, kColumnFamily,
    kColumnFamilyAdd, kColumnFamilyDrop, kMaxColumnFamily, kInAtomicGroup, kBlobFileAddition,
    kBlobFileGarbage, kDbId, kBlobFileAdditionDeprecated, kBlobFileGarbageDeprecated, kWalAddition,
    kWalDeletion, kFullHistoryTsLow, kWalAddition2, kWalDeletion2, kPersistUserDefinedTimestamps]

/-- The `case` of a tag, or none for the `default`. -/
def ofValue? (v : ℕ) : Option Tag := all.find? fun t => decide (t.value = v)

lemma ofValue?_value (t : Tag) : ofValue? t.value = some t := by
  cases t <;> decide

lemma value_lt (t : Tag) : t.value < 2 ^ 32 := by
  cases t <;> decide

end Tag

/-- The tags of the custom fields of a new file that `DecodeNewFile4From` knows. -/
inductive NewFileCustomTag where
  | kTerminate | kNeedCompaction | kMinLogNumberToKeepHack | kOldestBlobFileNumber
  | kOldestAncesterTime | kFileCreationTime | kFileChecksum | kFileChecksumFuncName | kTemperature
  | kUniqueId | kEpochNumber | kCompensatedRangeDeletionSize | kTailSize
  | kUserDefinedTimestampsPersisted | kPathId
deriving DecidableEq, Repr

def kCustomTagNonSafeIgnoreMask : ℕ := 2 ^ 6

namespace NewFileCustomTag

def value : NewFileCustomTag → ℕ
  | kTerminate => 1
  | kNeedCompaction => 2
  | kMinLogNumberToKeepHack => 3
  | kOldestBlobFileNumber => 4
  | kOldestAncesterTime => 5
  | kFileCreationTime => 6
  | kFileChecksum => 7
  | kFileChecksumFuncName => 8
  | kTemperature => 9
  | kUniqueId => 12
  | kEpochNumber => 13
  | kCompensatedRangeDeletionSize => 14
  | kTailSize => 15
  | kUserDefinedTimestampsPersisted => 16
  | kPathId => 65

def all : List NewFileCustomTag :=
  [kTerminate, kNeedCompaction, kMinLogNumberToKeepHack, kOldestBlobFileNumber,
    kOldestAncesterTime, kFileCreationTime, kFileChecksum, kFileChecksumFuncName, kTemperature,
    kUniqueId, kEpochNumber, kCompensatedRangeDeletionSize, kTailSize,
    kUserDefinedTimestampsPersisted, kPathId]

/-- The `case` of a tag, or none for the `default`. -/
def ofValue? (v : ℕ) : Option NewFileCustomTag := all.find? fun t => decide (t.value = v)

lemma ofValue?_value (t : NewFileCustomTag) : ofValue? t.value = some t := by
  cases t <;> decide

lemma value_lt (t : NewFileCustomTag) : t.value < 2 ^ 32 := by
  cases t <;> decide

end NewFileCustomTag

/-! ## The fields of an edit -/

def kUnknownFileChecksum : Bytes := []

/-- The bytes of `Unknown`. -/
def kUnknownFileChecksumFuncName : Bytes := [85, 110, 107, 110, 111, 119, 110]

def kMaxSequenceNumber : U64 := ⟨2 ^ 56 - 1, by decide⟩

/-- `Temperature::kUnknown` and `Temperature::kCold`. -/
def kUnknown : Fin 256 := 0

def kCold : Fin 256 := 12

/-- `PackFileNumberAndPathId`, with the arithmetic of `uint64_t`. -/
def packFileNumberAndPathId (number pathId : ℕ) : U64 :=
  ⟨(number ||| pathId * 2 ^ 62 % 2 ^ 64) % 2 ^ 64, Nat.mod_lt _ (by decide)⟩

structure FileDescriptor where
  packedNumberAndPathId : U64 := 0
  fileSize : U64 := 0
  smallestSeqno : U64 := kMaxSequenceNumber
  largestSeqno : U64 := 0
deriving DecidableEq

namespace FileDescriptor

def getNumber (fd : FileDescriptor) : ℕ := fd.packedNumberAndPathId.val &&& (2 ^ 62 - 1)

def getPathId (fd : FileDescriptor) : ℕ := fd.packedNumberAndPathId.val / 2 ^ 62

end FileDescriptor

/-- The fields of a new file that the manifest keeps. Internal keys are byte strings. -/
structure FileMetaData where
  fd : FileDescriptor := {}
  smallest : Bytes := []
  largest : Bytes := []
  compensatedRangeDeletionSize : U64 := 0
  markedForCompaction : Bool := false
  temperature : Fin 256 := kUnknown
  oldestBlobFileNumber : U64 := 0
  oldestAncesterTime : U64 := 0
  fileCreationTime : U64 := 0
  epochNumber : U64 := 0
  fileChecksum : Bytes := kUnknownFileChecksum
  fileChecksumFuncName : Bytes := kUnknownFileChecksumFuncName
  uniqueId : U64 × U64 := (0, 0)
  tailSize : U64 := 0
  userDefinedTimestampsPersisted : Bool := true
deriving DecidableEq

structure BlobFileAddition where
  blobFileNumber : U64
  totalBlobCount : U64
  totalBlobBytes : U64
  checksumMethod : Bytes
  checksumValue : Bytes
deriving DecidableEq

structure BlobFileGarbage where
  blobFileNumber : U64
  garbageBlobCount : U64
  garbageBlobBytes : U64
deriving DecidableEq

def kUnknownWalSize : U64 := ⟨2 ^ 64 - 1, by decide⟩

structure WalAddition where
  number : U64
  syncedSizeInBytes : U64 := kUnknownWalSize
deriving DecidableEq

/-- A version edit. A field with a flag that tells whether it is set is an `Option`. -/
structure VersionEdit where
  dbId : Option Bytes := none
  comparator : Option Bytes := none
  logNumber : Option U64 := none
  prevLogNumber : Option U64 := none
  nextFileNumber : Option U64 := none
  maxColumnFamily : Option U32 := none
  minLogNumberToKeep : Option U64 := none
  lastSequence : Option U64 := none
  compactCursors : List (Level × Bytes) := []
  deletedFiles : Finset (Level ×ₗ U64) := ∅
  newFiles : List (Level × FileMetaData) := []
  blobFileAdditions : List BlobFileAddition := []
  blobFileGarbages : List BlobFileGarbage := []
  walAdditions : List WalAddition := []
  walDeletion : U64 := 0
  columnFamily : U32 := 0
  columnFamilyAdd : Option Bytes := none
  columnFamilyDrop : Bool := false
  atomicGroup : Option U32 := none
  fullHistoryTsLow : Bytes := []
  persistUserDefinedTimestamps : Option Bool := none

def isValueType (t : ℕ) : Bool :=
  t ≤ 0x2 || t = 0x7 || t = 0x11 || t = 0x14 || t = 0x16 || t = 0x18

/-- `kTypeRangeDeletion` is 0xF and `kTypeMaxValid` is 0x1A. -/
def isExtendedValueType (t : ℕ) : Bool := isValueType t || t = 0xF || t = 0x1A

def kNumInternalBytes : ℕ := 8

/-- `InternalKey::Valid`. -/
def keyValid (key : Bytes) : Bool :=
  kNumInternalBytes ≤ key.length &&
    isExtendedValueType (LittleEndian.decode (key.drop (key.length - kNumInternalBytes)) % 256)

/-! ## Encoding -/

def putVarint32 (v : U32) : Bytes := putVarint v.val

def putVarint64 (v : U64) : Bytes := putVarint v.val

def putLevel (level : Level) : Bytes := putVarint32 level.toU32

def putTag (tag : Tag) : Bytes := putVarint tag.value

/-- A record that is only written if its field is set. -/
def putOption {α : Type} (tag : Tag) (put : α → Bytes) : Option α → Bytes
  | none => []
  | some a => putTag tag ++ put a

/-- A custom field of a new file. -/
def putCustom (tag : NewFileCustomTag) (field : Bytes) : Bytes :=
  putVarint tag.value ++ putLengthPrefixed field

def putCustomIf (b : Bool) (tag : NewFileCustomTag) (field : Bytes) : Bytes :=
  if b then putCustom tag field else []

/-- `static_cast<char>`. -/
def char (n : ℕ) : Fin 256 := Fin.ofNat 256 n

def stripTimestampFromInternalKey (key : Bytes) (tsSz : ℕ) : Bytes :=
  key.take (key.length - kNumInternalBytes - tsSz) ++ key.drop (key.length - kNumInternalBytes)

def encodeFileBoundaries (f : FileMetaData) (tsSz : ℕ) : Bytes :=
  if tsSz = 0 ∨ f.userDefinedTimestampsPersisted then
    putLengthPrefixed f.smallest ++ putLengthPrefixed f.largest
  else
    putLengthPrefixed (stripTimestampFromInternalKey f.smallest tsSz) ++
      putLengthPrefixed (stripTimestampFromInternalKey f.largest tsSz)

def encodeUniqueIdBytes (id : U64 × U64) : Bytes :=
  LittleEndian.encode 8 id.1.val ++ LittleEndian.encode 8 id.2.val

/-- The custom fields of a new file. `minLog` is `min_log_number_to_keep_` as long as that is not
written. -/
def encodeCustomFields (f : FileMetaData) (minLog : Option U64) : Bytes :=
  putCustom .kOldestAncesterTime (putVarint64 f.oldestAncesterTime) ++
  (putCustom .kFileCreationTime (putVarint64 f.fileCreationTime) ++
  (putCustom .kEpochNumber (putVarint64 f.epochNumber) ++
  (putCustomIf (f.fileChecksumFuncName ≠ kUnknownFileChecksumFuncName) .kFileChecksum
    f.fileChecksum ++
  (putCustomIf (f.fileChecksumFuncName ≠ kUnknownFileChecksumFuncName) .kFileChecksumFuncName
    f.fileChecksumFuncName ++
  (putCustomIf (f.fd.getPathId ≠ 0) .kPathId [char f.fd.getPathId] ++
  (putCustomIf (f.temperature ≠ kUnknown) .kTemperature [f.temperature] ++
  (putCustomIf f.markedForCompaction .kNeedCompaction [1] ++
  (putCustomIf minLog.isSome .kMinLogNumberToKeepHack (LittleEndian.encode 8 (minLog.getD 0).val) ++
  (putCustomIf (f.oldestBlobFileNumber ≠ 0) .kOldestBlobFileNumber
    (putVarint64 f.oldestBlobFileNumber) ++
  (putCustomIf (f.uniqueId ≠ (0, 0)) .kUniqueId (encodeUniqueIdBytes f.uniqueId) ++
  (putCustomIf (f.compensatedRangeDeletionSize ≠ 0) .kCompensatedRangeDeletionSize
    (putVarint64 f.compensatedRangeDeletionSize) ++
  (putCustomIf (f.tailSize ≠ 0) .kTailSize (putVarint64 f.tailSize) ++
  putCustomIf (!f.userDefinedTimestampsPersisted) .kUserDefinedTimestampsPersisted [0]))))))))))))

/-- The record of a new file, or none where `EncodeTo` returns false. Without `ts_sz` there is no
encoding either. -/
def encodeNewFile (tsSz : Option ℕ) (minLog : Option U64) (x : Level × FileMetaData) :
    Option Bytes :=
  let f := x.2
  if !keyValid f.smallest || !keyValid f.largest || f.epochNumber = 0 then none
  else
    tsSz.map fun tsSz =>
      putTag .kNewFile4 ++
      (putLevel x.1 ++
      (putVarint f.fd.getNumber ++
      (putVarint64 f.fd.fileSize ++
      (encodeFileBoundaries f tsSz ++
      (putVarint64 f.fd.smallestSeqno ++
      (putVarint64 f.fd.largestSeqno ++
      (encodeCustomFields f minLog ++ putVarint NewFileCustomTag.kTerminate.value)))))))

/-- The records of the new files, where only the first has the log number. -/
def encodeNewFiles (tsSz : Option ℕ) : Option U64 → List (Level × FileMetaData) → Option Bytes
  | _, [] => some []
  | minLog, x :: files =>
    match encodeNewFile tsSz minLog x, encodeNewFiles tsSz none files with
    | some b, some bs => some (b ++ bs)
    | _, _ => none

def BlobFileAddition.encodeTo (b : BlobFileAddition) : Bytes :=
  putVarint64 b.blobFileNumber ++
  (putVarint64 b.totalBlobCount ++
  (putVarint64 b.totalBlobBytes ++
  (putLengthPrefixed b.checksumMethod ++
  (putLengthPrefixed b.checksumValue ++ putVarint 0))))

def BlobFileGarbage.encodeTo (b : BlobFileGarbage) : Bytes :=
  putVarint64 b.blobFileNumber ++
  (putVarint64 b.garbageBlobCount ++
  (putVarint64 b.garbageBlobBytes ++ putVarint 0))

/-- `WalAdditionTag::kTerminate` is 1 and `WalAdditionTag::kSyncedSize` is 2. -/
def WalAddition.encodeTo (w : WalAddition) : Bytes :=
  putVarint64 w.number ++
  ((if w.syncedSizeInBytes ≠ kUnknownWalSize then
    putVarint 2 ++ putVarint64 w.syncedSizeInBytes else []) ++
  putVarint 1)

def encodeCompactCursor (cursor : Level × Bytes) : Bytes :=
  if keyValid cursor.2 then
    putTag .kCompactCursor ++ (putLevel cursor.1 ++ putLengthPrefixed cursor.2)
  else []

def encodeDeletedFile (deleted : Level ×ₗ U64) : Bytes :=
  putTag .kDeletedFile ++ (putLevel (ofLex deleted).1 ++ putVarint64 (ofLex deleted).2)

variable (e : VersionEdit)

/-- The records before the new files. -/
def VersionEdit.encodeHead : Bytes :=
  putOption .kDbId putLengthPrefixed e.dbId ++
  (putOption .kComparator putLengthPrefixed e.comparator ++
  (putOption .kLogNumber putVarint64 e.logNumber ++
  (putOption .kPrevLogNumber putVarint64 e.prevLogNumber ++
  (putOption .kNextFileNumber putVarint64 e.nextFileNumber ++
  (putOption .kMaxColumnFamily putVarint32 e.maxColumnFamily ++
  (putOption .kMinLogNumberToKeep putVarint64 e.minLogNumberToKeep ++
  (putOption .kLastSequence putVarint64 e.lastSequence ++
  (e.compactCursors.flatMap encodeCompactCursor ++
  (e.deletedFiles.sort (· ≤ ·)).flatMap encodeDeletedFile))))))))

/-- The records after the new files. -/
def VersionEdit.encodeTail : Bytes :=
  (e.blobFileAdditions.flatMap fun b => putTag .kBlobFileAddition ++ b.encodeTo) ++
  ((e.blobFileGarbages.flatMap fun b => putTag .kBlobFileGarbage ++ b.encodeTo) ++
  ((e.walAdditions.flatMap fun w => putTag .kWalAddition2 ++ putLengthPrefixed w.encodeTo) ++
  ((if e.walDeletion ≠ 0 then
    putTag .kWalDeletion2 ++ putLengthPrefixed (putVarint64 e.walDeletion) else []) ++
  ((if e.columnFamily ≠ 0 then putTag .kColumnFamily ++ putVarint32 e.columnFamily else []) ++
  (putOption .kColumnFamilyAdd putLengthPrefixed e.columnFamilyAdd ++
  ((if e.columnFamilyDrop then putTag .kColumnFamilyDrop else []) ++
  (putOption .kInAtomicGroup putVarint32 e.atomicGroup ++
  ((if e.fullHistoryTsLow ≠ [] then
    putTag .kFullHistoryTsLow ++ putLengthPrefixed e.fullHistoryTsLow else []) ++
  putOption .kPersistUserDefinedTimestamps (fun b : Bool => putLengthPrefixed [char b.toNat])
    e.persistUserDefinedTimestamps))))))))

/-- `VersionEdit::EncodeTo`, with no encoding where it returns false or an assertion fails: the name
of the comparator and the flag for its timestamps are logged together. -/
def VersionEdit.encodeTo (tsSz : Option ℕ) : Option Bytes :=
  if e.comparator.isSome = e.persistUserDefinedTimestamps.isSome then
    (encodeNewFiles tsSz e.minLogNumberToKeep e.newFiles).map fun files =>
      e.encodeHead ++ (files ++ e.encodeTail)
  else none

/-! ## Decoding -/

/-- `Status::Corruption`. -/
structure Corruption where
  context : String
  message : String
deriving DecidableEq, Repr

/-- A corruption that `VersionEdit::DecodeFrom` reports. -/
def malformed (message : String) : Corruption := ⟨"VersionEdit", message⟩

variable (input : Bytes)

def getVarint32 : Option (U32 × Bytes) :=
  (getVarint 32 5 input).map fun r => (⟨r.1 % 2 ^ 32, Nat.mod_lt _ (by decide)⟩, r.2)

def getVarint64 : Option (U64 × Bytes) :=
  (getVarint 64 10 input).map fun r => (⟨r.1 % 2 ^ 64, Nat.mod_lt _ (by decide)⟩, r.2)

def getFixed64 : Option (U64 × Bytes) :=
  (getFixed 8 input).map fun r => (⟨r.1 % 2 ^ 64, Nat.mod_lt _ (by decide)⟩, r.2)

def getLevel : Option (Level × Bytes) :=
  (getVarint32 input).map fun r => (Level.ofU32 r.1, r.2)

def getInternalKey : Option (Bytes × Bytes) :=
  match getLengthPrefixed input with
  | none => none
  | some r => if keyValid r.1 then some r else none

open Get

/-- What `DecodeNewFile4From` knows while it reads custom fields. -/
structure NewFileState where
  file : FileMetaData
  pathId : ℕ
  minLog : Option U64

namespace NewFileState

/-- A field with a number, of which the rest is ignored. -/
def number (get : Bytes → Option (U64 × Bytes)) (message : String)
    (set : U64 → NewFileState) (field : Bytes) : Except String NewFileState :=
  match get field with
  | none => .error message
  | some r => .ok (set r.1)

/-- A field of one byte. -/
def byte (message : String) (set : Fin 256 → Except String NewFileState) (field : Bytes) :
    Except String NewFileState :=
  match field with
  | [b] => set b
  | _ => .error message

/-- `DecodeUniqueIdBytes`. -/
def decodeUniqueIdBytes (field : Bytes) : Option (U64 × U64) :=
  if field.length ≠ 16 then none
  else
    match getFixed64 field with
    | none => none
    | some r =>
      match getFixed64 r.2 with
      | none => none
      | some r' => some (r.1, r'.1)

/-- The `switch` over the custom tag, up to the terminating tag. -/
def setField (s : NewFileState) (tag : NewFileCustomTag) (field : Bytes) :
    Except String NewFileState :=
  let f := s.file
  match tag with
  | .kTerminate => .ok s
  | .kPathId =>
    byte "path_id field wrong size"
      (fun b => if b.val > 3 then .error "path_id wrong vaue" else .ok { s with pathId := b.val })
      field
  | .kOldestAncesterTime =>
    number getVarint64 "invalid oldest ancester time"
      (fun v => { s with file := { f with oldestAncesterTime := v } }) field
  | .kFileCreationTime =>
    number getVarint64 "invalid file creation time"
      (fun v => { s with file := { f with fileCreationTime := v } }) field
  | .kEpochNumber =>
    number getVarint64 "invalid epoch number"
      (fun v => { s with file := { f with epochNumber := v } }) field
  | .kFileChecksum => .ok { s with file := { f with fileChecksum := field } }
  | .kFileChecksumFuncName => .ok { s with file := { f with fileChecksumFuncName := field } }
  | .kNeedCompaction =>
    byte "need_compaction field wrong size"
      (fun b => .ok { s with file := { f with markedForCompaction := b = 1 } }) field
  | .kMinLogNumberToKeepHack =>
    number getFixed64 "deleted log number malformatted" (fun v => { s with minLog := some v }) field
  | .kOldestBlobFileNumber =>
    number getVarint64 "invalid oldest blob file number"
      (fun v => { s with file := { f with oldestBlobFileNumber := v } }) field
  | .kTemperature =>
    -- an unknown temperature is left out
    byte "temperature field wrong size"
      (fun b => .ok (if b ≤ kCold then { s with file := { f with temperature := b } } else s)) field
  | .kUniqueId =>
    match decodeUniqueIdBytes field with
    | none => .error "invalid unique id"
    | some id => .ok { s with file := { f with uniqueId := id } }
  | .kCompensatedRangeDeletionSize =>
    number getVarint64 "Invalid compensated range deletion size"
      (fun v => { s with file := { f with compensatedRangeDeletionSize := v } }) field
  | .kTailSize =>
    number getVarint64 "invalid tail start offset"
      (fun v => { s with file := { f with tailSize := v } }) field
  | .kUserDefinedTimestampsPersisted =>
    byte "user-defined timestamps persisted field wrong size"
      (fun b => .ok { s with file := { f with userDefinedTimestampsPersisted := b = 1 } }) field

/-- What to do with a custom field. -/
def applyField (s : NewFileState) (tag : U32) (field : Bytes) :
    Get Corruption (Round NewFileState NewFileState) :=
  match NewFileCustomTag.ofValue? tag.val with
  | none =>
    if tag.val &&& kCustomTagNonSafeIgnoreMask ≠ 0 then
      fail (malformed "new-file4 custom field not supported")
    else pure (.next s)
  | some t =>
    match s.setField t field with
    | .error message => fail (malformed message)
    | .ok s' => pure (.next s')

/-- A round of the loop over the custom fields. -/
def round (s : NewFileState) : Get Corruption (Round NewFileState NewFileState) := do
  let tag ← orFail getVarint32 (malformed "new-file4 custom field")
  if tag.val = NewFileCustomTag.kTerminate.value then pure (.leave s)
  else
    let field ← orFail getLengthPrefixed
      (malformed "new-file4 custom field length prefixed slice error")
    s.applyField tag field

end NewFileState

def fileDescriptor (number pathId : ℕ) (fileSize smallestSeqno largestSeqno : U64) :
    FileDescriptor :=
  ⟨packFileNumberAndPathId number pathId, fileSize, smallestSeqno, largestSeqno⟩

def addNewFile (level : Level) (f : FileMetaData) : VersionEdit :=
  { e with newFiles := e.newFiles ++ [(level, f)] }

def decodeNewFile4From : Get Corruption VersionEdit := do
  let msg := malformed "new-file4 entry"
  let level ← orFail getLevel msg
  let number ← orFail getVarint64 msg
  let fileSize ← orFail getVarint64 msg
  let smallest ← orFail getInternalKey msg
  let largest ← orFail getInternalKey msg
  let smallestSeqno ← orFail getVarint64 msg
  let largestSeqno ← orFail getVarint64 msg
  let s ← loop NewFileState.round
    ⟨{ smallest := smallest, largest := largest }, 0, e.minLogNumberToKeep⟩
  let fd := fileDescriptor number s.pathId fileSize smallestSeqno largestSeqno
  pure (addNewFile { e with minLogNumberToKeep := s.minLog } level { s.file with fd := fd })

/-- The loop over custom fields of a blob file record, none of which is known. -/
def skipCustomFields (context : String) : Get Corruption Unit :=
  loop (fun _ : Unit => do
    let tag ← orFail getVarint32 ⟨context, "Error decoding custom field tag"⟩
    if tag.val = 0 then pure (.leave ())
    else if tag.val &&& 2 ^ 6 ≠ 0 then
      fail ⟨context, "Forward incompatible custom field encountered"⟩
    else
      let _ ← orFail getLengthPrefixed ⟨context, "Error decoding custom field value"⟩
      pure (.next ())) ()

def BlobFileAddition.decodeFrom : Get Corruption BlobFileAddition := do
  let context := "BlobFileAddition"
  let blobFileNumber ← orFail getVarint64 ⟨context, "Error decoding blob file number"⟩
  let totalBlobCount ← orFail getVarint64 ⟨context, "Error decoding total blob count"⟩
  let totalBlobBytes ← orFail getVarint64 ⟨context, "Error decoding total blob bytes"⟩
  let checksumMethod ← orFail getLengthPrefixed ⟨context, "Error decoding checksum method"⟩
  let checksumValue ← orFail getLengthPrefixed ⟨context, "Error decoding checksum value"⟩
  let _ ← skipCustomFields context
  pure ⟨blobFileNumber, totalBlobCount, totalBlobBytes, checksumMethod, checksumValue⟩

def BlobFileGarbage.decodeFrom : Get Corruption BlobFileGarbage := do
  let context := "BlobFileGarbage"
  let blobFileNumber ← orFail getVarint64 ⟨context, "Error decoding blob file number"⟩
  let garbageBlobCount ← orFail getVarint64 ⟨context, "Error decoding garbage blob count"⟩
  let garbageBlobBytes ← orFail getVarint64 ⟨context, "Error decoding garbage blob bytes"⟩
  let _ ← skipCustomFields context
  pure ⟨blobFileNumber, garbageBlobCount, garbageBlobBytes⟩

/-- A round of `WalAddition::DecodeFrom`. -/
def WalAddition.round (w : WalAddition) : Get Corruption (Round WalAddition WalAddition) := do
  let tag ← orFail getVarint32 ⟨"WalAddition", "Error decoding tag"⟩
  if tag.val = 2 then
    let size ← orFail getVarint64 ⟨"WalAddition", "Error decoding WAL file size"⟩
    pure (.next { w with syncedSizeInBytes := size })
  else if tag.val = 1 then pure (.leave w)
  else fail ⟨"WalAddition", "Unknown tag " ++ toString tag.val⟩

def WalAddition.decodeFrom : Get Corruption WalAddition := do
  let number ← orFail getVarint64 ⟨"WalAddition", "Error decoding WAL log number"⟩
  loop WalAddition.round ⟨number, kUnknownWalSize⟩

def decodeWalDeletion : Get Corruption U64 :=
  orFail getVarint64 ⟨"WalDeletion", "Error decoding WAL log number"⟩

/-- Reads from a string of its own. -/
def within {α : Type} (field : Bytes) (g : Get Corruption α) : Get Corruption α := fun input =>
  match g field with
  | none => none
  | some (.error e) => some (.error e)
  | some (.ok r) => some (.ok (r.1, input))

/-- A record with one value. -/
def record {α : Type} (get : Bytes → Option (α × Bytes)) (message : String)
    (set : α → VersionEdit) : Get Corruption VersionEdit := do
  let a ← orFail get (malformed message)
  pure (set a)

/-- A value that is only read in some formats. -/
def getIf {α : Type} (b : Bool) (g : Get Corruption α) (default : α) : Get Corruption α :=
  if b then g else pure default

/-- The records of new files in older formats. -/
def decodeOldNewFile (message : String) (hasPathId hasSeqnos : Bool) :
    Get Corruption VersionEdit := do
  let msg := malformed message
  let level ← orFail getLevel msg
  let number ← orFail getVarint64 msg
  let pathId ← getIf hasPathId (orFail getVarint32 msg) 0
  let fileSize ← orFail getVarint64 msg
  let smallest ← orFail getInternalKey msg
  let largest ← orFail getInternalKey msg
  let smallestSeqno ← getIf hasSeqnos (orFail getVarint64 msg) kMaxSequenceNumber
  let largestSeqno ← getIf hasSeqnos (orFail getVarint64 msg) 0
  let fd := fileDescriptor number pathId fileSize smallestSeqno largestSeqno
  pure (addNewFile e level { fd := fd, smallest := smallest, largest := largest })

namespace VersionEdit

/-- The cases of the `switch` in `DecodeFrom`. -/
def decodeTag (e : VersionEdit) : Tag → Get Corruption VersionEdit
  | .kDbId => record getLengthPrefixed "db id" fun s => { e with dbId := some s }
  | .kComparator =>
    record getLengthPrefixed "comparator name" fun s => { e with comparator := some s }
  | .kLogNumber => record getVarint64 "log number" fun v => { e with logNumber := some v }
  | .kPrevLogNumber =>
    record getVarint64 "previous log number" fun v => { e with prevLogNumber := some v }
  | .kNextFileNumber =>
    record getVarint64 "next file number" fun v => { e with nextFileNumber := some v }
  | .kMaxColumnFamily =>
    record getVarint32 "max column family" fun v => { e with maxColumnFamily := some v }
  | .kMinLogNumberToKeep =>
    record getVarint64 "min log number to kee" fun v => { e with minLogNumberToKeep := some v }
  | .kLastSequence =>
    record getVarint64 "last sequence number" fun v => { e with lastSequence := some v }
  | .kCompactCursor => do
    let level ← orFail getLevel (malformed "compaction cursor")
    let key ← orFail getInternalKey (malformed "compaction cursor")
    pure { e with compactCursors := e.compactCursors ++ [(level, key)] }
  | .kDeletedFile => do
    let level ← orFail getLevel (malformed "deleted file")
    let number ← orFail getVarint64 (malformed "deleted file")
    pure { e with deletedFiles := insert (toLex (level, number)) e.deletedFiles }
  | .kNewFile => decodeOldNewFile e "new-file entry" false false
  | .kNewFile2 => decodeOldNewFile e "new-file2 entry" false true
  | .kNewFile3 => decodeOldNewFile e "new-file3 entry" true true
  | .kNewFile4 => decodeNewFile4From e
  | .kBlobFileAddition | .kBlobFileAdditionDeprecated => do
    let b ← BlobFileAddition.decodeFrom
    pure { e with blobFileAdditions := e.blobFileAdditions ++ [b] }
  | .kBlobFileGarbage | .kBlobFileGarbageDeprecated => do
    let b ← BlobFileGarbage.decodeFrom
    pure { e with blobFileGarbages := e.blobFileGarbages ++ [b] }
  | .kWalAddition => do
    let w ← WalAddition.decodeFrom
    pure { e with walAdditions := e.walAdditions ++ [w] }
  | .kWalAddition2 => do
    let encoded ← orFail getLengthPrefixed (malformed "WalAddition not prefixed by length")
    let w ← within encoded WalAddition.decodeFrom
    pure { e with walAdditions := e.walAdditions ++ [w] }
  | .kWalDeletion => do
    let number ← decodeWalDeletion
    pure { e with walDeletion := number }
  | .kWalDeletion2 => do
    let encoded ← orFail getLengthPrefixed (malformed "WalDeletion not prefixed by length")
    let number ← within encoded decodeWalDeletion
    pure { e with walDeletion := number }
  | .kColumnFamily =>
    record getVarint32 "set column family id" fun v => { e with columnFamily := v }
  | .kColumnFamilyAdd =>
    record getLengthPrefixed "column family add" fun s => { e with columnFamilyAdd := some s }
  | .kColumnFamilyDrop => pure { e with columnFamilyDrop := true }
  | .kInAtomicGroup =>
    record getVarint32 "remaining entries" fun v => { e with atomicGroup := some v }
  | .kFullHistoryTsLow => do
    let s ← orFail getLengthPrefixed (malformed "full_history_ts_low")
    if s = [] then fail (malformed "full_history_ts_low: empty")
    else pure { e with fullHistoryTsLow := s }
  | .kPersistUserDefinedTimestamps => do
    let s ← orFail getLengthPrefixed (malformed "persist_user_defined_timestamps")
    match s with
    | [b] => pure { e with persistUserDefinedTimestamps := some (b = 1) }
    | _ => fail (malformed "persist_user_defined_timestamps field wrong size")

/-- The `default` of the `switch`: a tag from the future. -/
def decodeUnknown (e : VersionEdit) (tag : U32) : Get Corruption VersionEdit :=
  if tag.val &&& kTagSafeIgnoreMask ≠ 0 then do
    let len ← orFail getVarint32 (malformed "safely ignoreable tag length error")
    fun input =>
      if len.val > input.length then
        some (.error (malformed "safely ignoreable tag length error"))
      else some (.ok (e, input.drop len.val))
  else fail (malformed "unknown tag")

/-- A round of the loop of `DecodeFrom`, which ends where no tag can be read. -/
def round (e : VersionEdit) : Get Corruption (Round VersionEdit VersionEdit) := fun input =>
  match getVarint32 input with
  | none =>
    if input = [] then some (.ok (.leave e, input)) else some (.error (malformed "invalid tag"))
  | some r =>
    (do
      let e' ← match Tag.ofValue? r.1.val with
        | some tag => e.decodeTag tag
        | none => e.decodeUnknown r.1
      pure (.next e') : Get Corruption (Round VersionEdit VersionEdit)) r.2

/-- `VersionEdit::DecodeFrom`. -/
def decodeFrom (src : Bytes) : Option (Except Corruption VersionEdit) :=
  match loop round {} src with
  | none => none
  | some (.error e) => some (.error e)
  | some (.ok r) => some (.ok r.1)

end VersionEdit

end BucketLSM.EditCodec
