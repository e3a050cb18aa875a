import BucketLSM.Log.Format
import BucketLSM.Lib.Loop

/-!
# The log reader

`db/log_reader.cc`, class `Reader`. The reader takes the file block by block into `buffer`.
`physicalRound` is the body of the loop of `ReadPhysicalRecord` and `readRecordRound` that of
`ReadRecord`. A read of the file may fail; the calls on the reporter are kept in a list.

The checksum of the whole record (`record_checksum`) is left out.
-/

namespace BucketLSM.Log

open Lib RecordType

/-- `WALRecoveryMode`. -/
inductive RecoveryMode
  | tolerateCorruptedTailRecords
  | absoluteConsistency
  | pointInTimeRecovery
  | skipAnyCorruptedRecords
deriving DecidableEq, Repr

/-- The two modes in which an incomplete end of the log is reported. -/
def RecoveryMode.strict (mode : RecoveryMode) : Bool :=
  mode == .absoluteConsistency || mode == .pointInTimeRecovery

/-! ## The file and the reporter -/

/-- A `SequentialFileReader`: the bytes behind the position, and for the reads to come
whether they fail, after how many bytes. -/
structure SequentialFile where
  unread : Slice
  faults : List (Option ℕ) := []
deriving DecidableEq, Repr

/-- `Read` of up to `n` bytes: whether it succeeds, and the bytes. -/
def SequentialFile.read (f : SequentialFile) (n : ℕ) : Bool × Slice × SequentialFile :=
  match f.faults with
  | [] => (true, f.unread.take n, ⟨f.unread.drop n, []⟩)
  | none :: faults => (true, f.unread.take n, ⟨f.unread.drop n, faults⟩)
  | some k :: faults => (false, f.unread.take (min n k), ⟨f.unread.drop (min n k), faults⟩)

/-- A call on the `Reporter`. -/
inductive Report
  | corruption (bytes : ℕ) (reason : String) (logNumber : Option UInt64)
  | drop (bytes : ℕ)
  | oldLogRecord (bytes : ℕ)
deriving DecidableEq, Repr

/-- The call is `Reporter::Corruption`. -/
def Report.isCorruption : Report → Bool
  | corruption .. => true
  | drop _ => true
  | oldLogRecord _ => false

/-! ## The reader -/

/-- What a `Reader` is constructed with. -/
structure ReaderOptions where
  crc : Crc32c
  checksum : Bool
  logNumber : UInt64
  trackAndVerifyWals : Bool := false
  stopReplayForCorruption : Bool := false
  minWalNumberToKeep : UInt64 := UInt64.ofNat (2 ^ 64 - 1)
  observedPredecessorWalInfo : Option PredecessorWALInfo := none

/-- The state of a `Reader`. -/
structure Reader (C : Streaming) where
  file : SequentialFile
  buffer : Slice := []
  eof : Bool := false
  readError : Bool := false
  eofOffset : ℕ := 0
  lastRecordOffset : ℕ := 0
  endOfBufferOffset : ℕ := 0
  recycled : Bool := false
  firstRecordRead : Bool := false
  compressionTypeRecordRead : Bool := false
  uncompress : Option C.State := none
  recordedCfToTsSz : TimestampSizes := []
  reports : List Report := []

/-- The result codes of `ReadPhysicalRecord`, as the `switch` of `ReadRecord` tells them
apart. The special values are bytes too, so a type byte of a file may be one of them. -/
inductive Code
  | full
  | first
  | middle
  | last
  | setCompression
  | predecessorWALInfo
  | userDefinedTimestampSize
  | eof
  | badRecord
  | badHeader
  | oldRecord
  | badRecordLen
  | badRecordChecksum
  | unknown (type : Byte)
deriving DecidableEq, Repr

/-- The code that a type byte is. -/
def Code.ofByte (type : Byte) : Code :=
  match type.val with
  | 1 => .full
  | 2 => .first
  | 3 => .middle
  | 4 => .last
  | 5 => .full
  | 6 => .first
  | 7 => .middle
  | 8 => .last
  | 9 => .setCompression
  | 10 => .userDefinedTimestampSize
  | 11 => .userDefinedTimestampSize
  | 130 => .predecessorWALInfo
  | 131 => .predecessorWALInfo
  | 132 => .eof
  | 133 => .badRecord
  | 134 => .badHeader
  | 135 => .oldRecord
  | 136 => .badRecordLen
  | 137 => .badRecordChecksum
  | _ => .unknown type

/-- The types whose payload is never compressed. -/
def isMetadataType (type : Byte) : Bool :=
  type == RecordType.setCompression.code || type == RecordType.predecessorWALInfo.code ||
    type == RecordType.recyclePredecessorWALInfo.code ||
    type == RecordType.userDefinedTimestampSize.code ||
    type == RecordType.recyclableUserDefinedTimestampSize.code

/-- What `ReadPhysicalRecord` returns. -/
structure Physical where
  code : Code
  fragment : Slice := []
  dropSize : ℕ := 0
deriving DecidableEq, Repr

/-- The fields of a header, read from the front of a buffer of at least seven bytes. -/
structure Header where
  type : Byte
  length : ℕ
deriving DecidableEq, Repr

namespace Header

def parse (buffer : Slice) : Header :=
  ⟨buffer.getD 6 0, LittleEndian.decode ((buffer.drop 4).take 2)⟩

def recyclable (h : Header) : Bool := isRecyclableType h.type

def size (h : Header) : ℕ := if h.recyclable then recyclableHeaderSize else headerSize

end Header

/-- `log_num`, the log number in a recyclable header. -/
def logNum (buffer : Slice) : ℕ := LittleEndian.decode ((buffer.drop 7).take 4)

namespace Reader

variable {C : Streaming} (opts : ReaderOptions) (s : Reader C)

/-- `ReportCorruption`. -/
def reportCorruption (bytes : ℕ) (reason : String) : Reader C :=
  { s with reports := s.reports ++ [.corruption bytes reason none] }

/-- A record that began at `offset` has been read. -/
def markRecord (offset : ℕ) : Reader C :=
  { s with lastRecordOffset := offset, firstRecordRead := true }

/-- `ReadMore`: nothing when it returns true, else the error and the drop size. -/
def readMore : Option (Code × ℕ) × Reader C :=
  if !s.eof && !s.readError then
    let (ok, bytes, file) := s.file.read blockSize
    let s := { s with file, endOfBufferOffset := s.endOfBufferOffset + bytes.length }
    if !ok then
      (some (.eof, 0),
        { s with buffer := [], readError := true, reports := s.reports ++ [.drop blockSize] })
    else if bytes.length < blockSize then
      (none, { s with buffer := bytes, eof := true, eofOffset := bytes.length })
    else (none, { s with buffer := bytes })
  else if s.buffer.length ≠ 0 then
    (some (.badHeader, s.buffer.length), { s with buffer := [] })
  else (some (.eof, 0), { s with buffer := [] })

/-- A round of `ReadPhysicalRecord` in which the buffer is too short. -/
def moreRound : Round (Reader C) (Physical × Reader C) :=
  match readMore s with
  | (none, s) => .next s
  | (some (error, dropSize), s) => .leave (⟨error, [], dropSize⟩, s)

/-- The stored checksum of the record at the front of `header` is not that of its bytes. -/
def badChecksum (h : Header) (header : Slice) : Bool :=
  opts.checksum && opts.crc.value ((header.drop 6).take (h.length + h.size - 6)) !=
      unmask (UInt32.ofNat (LittleEndian.decode (header.take 4)))

/-- The end of `ReadPhysicalRecord`: the fragment leaves the buffer, through the
decompressor if there is one. `header` is where the header pointer points to. -/
def deliver (h : Header) (header : Slice) : Physical × Reader C :=
  let payload := (header.drop h.size).take h.length
  let s := { s with buffer := s.buffer.drop (h.size + h.length) }
  match s.uncompress with
  | none => (⟨Code.ofByte h.type, payload, 0⟩, s)
  | some st =>
    if isMetadataType h.type then (⟨Code.ofByte h.type, payload, 0⟩, s)
    else
      match C.uncompress st payload with
      | (none, st) => (⟨.badRecord, [], 0⟩, { s with buffer := [], uncompress := some st })
      | (some out, st) => (⟨Code.ofByte h.type, out, 0⟩, { s with uncompress := some st })

/-- The checks of `ReadPhysicalRecord` on a record whose header is in the buffer. -/
def checkRecord (h : Header) : Physical × Reader C :=
  if s.buffer.length < h.size + h.length then
    (⟨.badRecordLen, [], s.buffer.length⟩, { s with buffer := [] })
  else if h.recyclable && logNum s.buffer != opts.logNumber.toNat then
    (⟨.oldRecord, [], 0⟩, { s with buffer := s.buffer.drop (h.size + h.length) })
  else if h.type == RecordType.zero.code && h.length == 0 then
    (⟨.badRecord, [], 0⟩, { s with buffer := [] })
  else if badChecksum opts h s.buffer then
    (⟨.badRecordChecksum, [], s.buffer.length⟩, { s with buffer := [] })
  else deliver s h s.buffer

/-- One round of the loop of `ReadPhysicalRecord`. -/
def physicalRound : Round (Reader C) (Physical × Reader C) :=
  if s.buffer.length < headerSize then moreRound s
  else
    let h := Header.parse s.buffer
    if h.recyclable then
      -- a recycled log should have started with a recycled record
      if s.firstRecordRead && !s.recycled then .leave (⟨.badRecord, [], 0⟩, s)
      else
        let s := { s with recycled := true }
        if s.buffer.length < recyclableHeaderSize then moreRound s
        else .leave (checkRecord opts s h)
    else .leave (checkRecord opts s h)

/-- `ReadPhysicalRecord`. Three rounds are always enough. -/
def readPhysicalRecord : Option (Physical × Reader C) :=
  Loop.run (physicalRound opts) 3 s

/-! ## Metadata records -/

/-- The checks of `MaybeVerifyPredecessorWALInfo`: the reason it reports, if it does. -/
def predecessorMismatch (mode : RecoveryMode) (recorded : PredecessorWALInfo) : Option String :=
  if !opts.trackAndVerifyWals || mode == .skipAnyCorruptedRecords ||
      opts.stopReplayForCorruption then none
  else
    match opts.observedPredecessorWalInfo with
    | none =>
      if opts.minWalNumberToKeep ≤ recorded.logNumber then
        some ("Missing WAL of log number " ++ toString recorded.logNumber)
      else none
    | some observed =>
      if observed.logNumber ≠ recorded.logNumber then
        some ("Missing WAL of log number " ++ toString recorded.logNumber)
      else if observed.lastSeqnoRecorded ≠ recorded.lastSeqnoRecorded then
        some ("Mismatched last sequence number recorded in the WAL of log number " ++
          toString recorded.logNumber ++ ". Recorded " ++ toString recorded.lastSeqnoRecorded ++
          ". Observed " ++ toString observed.lastSeqnoRecorded ++
          ". (Last sequence number equal to 0 indicates no WAL records)")
      else if observed.sizeBytes ≠ recorded.sizeBytes then
        some ("Mismatched size of the WAL of log number " ++ toString recorded.logNumber ++
          ". Recorded " ++ toString recorded.sizeBytes ++ " bytes. Observed " ++
          toString observed.sizeBytes ++ " bytes.")
      else none

/-- `MaybeVerifyPredecessorWALInfo`; `bytes` is the size of what decoding left. -/
def maybeVerifyPredecessorWALInfo (mode : RecoveryMode) (bytes : ℕ)
    (recorded : PredecessorWALInfo) : Reader C :=
  match predecessorMismatch opts mode recorded with
  | none => s
  | some reason =>
    { s with reports := s.reports ++ [.corruption bytes reason (some recorded.logNumber)] }

/-- The predecessor record of `ReadRecord`, once its offset is stored. -/
def readPredecessorWALInfo (mode : RecoveryMode) (fragment : Slice) : Reader C :=
  match PredecessorWALInfo.decodeFrom fragment with
  | (none, rest) =>
    s.reportCorruption rest.length "could not decode PredecessorWALInfoType record"
  | (some recorded, rest) => maybeVerifyPredecessorWALInfo opts s mode rest.length recorded

/-- `UpdateRecordedTimestampSize`: the sizes recorded, and the message of a failure. -/
def updateRecordedTimestampSize : TimestampSizes → TimestampSizes → TimestampSizes × Option String
  | recorded, [] => (recorded, none)
  | recorded, (cf, size) :: rest =>
    if size = 0 then
      (recorded, some "User-defined timestamp size record contains zero timestamp size.")
    else if (recorded.lookup cf).isSome then
      (recorded, some ("User-defined timestamp size record contains update to " ++
        "recorded column family."))
    else updateRecordedTimestampSize (recorded ++ [(cf, size)]) rest

/-- The timestamp size record of `ReadRecord`, once its offset is stored. -/
def readTimestampSizes (fragment : Slice) : Reader C :=
  match TimestampSizes.decodeFrom fragment with
  | (none, rest) =>
    s.reportCorruption rest.length "could not decode user-defined timestamp size record"
  | (some sizes, rest) =>
    match updateRecordedTimestampSize s.recordedCfToTsSz sizes with
    | (recorded, none) => { s with recordedCfToTsSz := recorded }
    | (recorded, some reason) =>
      { s with recordedCfToTsSz := recorded }.reportCorruption rest.length reason

/-- The compression type record of `ReadRecord`, once its offset is stored; `InitCompression`
starts the stream. -/
def readCompressionType (fragment : Slice) : Reader C :=
  match decodeCompressionType C fragment with
  | (none, rest) =>
    s.reportCorruption rest.length "could not decode SetCompressionType record"
  | (some _, _) => { s with compressionTypeRecordRead := true, uncompress := some C.fresh }

/-- The two checks made before a compression type record is decoded. -/
def checkCompressionType (fragment : Slice) : Reader C :=
  let s :=
    if s.compressionTypeRecordRead then
      s.reportCorruption fragment.length "read multiple SetCompressionType records"
    else s
  if s.firstRecordRead then
    s.reportCorruption fragment.length "SetCompressionType not the first record"
  else s

end Reader

/-! ## `ReadRecord` -/

/-- The variables of `ReadRecord`. -/
structure Scan (C : Streaming) where
  reader : Reader C
  inFragmentedRecord : Bool := false
  prospectiveRecordOffset : ℕ := 0
  scratch : Slice := []

namespace Scan

variable {C : Streaming} (l : Scan C)

/-- A corruption reported in the course of `ReadRecord`. -/
def report (bytes : ℕ) (reason : String) : Scan C :=
  { l with reader := l.reader.reportCorruption bytes reason }

/-- The report of a logical record that is cut off, if there is one with a reason. -/
def reportPartial (reason : String) : Scan C :=
  if l.inFragmentedRecord && !l.scratch.isEmpty then l.report l.scratch.length reason else l

/-- A metadata record is met at `offset`: what has been read of a record is forgotten. -/
def metadataAt (offset : ℕ) : Scan C :=
  { l with
    reader := { l.reader with lastRecordOffset := offset }
    prospectiveRecordOffset := offset
    scratch := [] }

/-- The return of a record that began at `offset`. -/
def returnRecord (offset : ℕ) (record : Slice) : Option Slice × Reader C :=
  (some record, l.reader.markRecord offset)

/-- The error in the middle of a record, which ends it. -/
def dropPartial : Scan C :=
  if l.inFragmentedRecord then
    { l.report l.scratch.length "error in middle of record" with
      inFragmentedRecord := false, scratch := [] }
  else l

/-- The end of the input in the middle of a record. -/
def reportStrict (mode : RecoveryMode) (bytes : ℕ) (reason : String) : Scan C :=
  if mode.strict then l.report bytes reason else l

/-- `kEof`. -/
def leaveAtEof (mode : RecoveryMode) : Option Slice × Reader C :=
  if l.inFragmentedRecord then
    (none, (l.reportStrict mode l.scratch.length
      "error reading trailing data due to encountering EOF").reader)
  else (none, l.reader)

/-- `kOldRecord` in the modes that take it for the end of the file. -/
def leaveAtOldRecord (mode : RecoveryMode) : Option Slice × Reader C :=
  if l.inFragmentedRecord then
    (none, (l.reportStrict mode l.scratch.length
      "error reading trailing data due to encountering old record").reader)
  else if mode == .pointInTimeRecovery then
    (none, { l.reader with
      reports := l.reader.reports ++ [.oldLogRecord l.scratch.length] })
  else (none, l.reader)

/-- `kBadRecordLen` before the end of the file, and `kBadRecordChecksum`. -/
def badFragment (mode : RecoveryMode) (bytes : ℕ) (reason : String) :
    Round (Scan C) (Option Slice × Reader C) :=
  if l.reader.recycled && mode == .tolerateCorruptedTailRecords then .leave (none, l.reader)
  else .next (l.report bytes reason).dropPartial

end Scan

namespace Reader

variable {C : Streaming} (opts : ReaderOptions) (mode : RecoveryMode)

/-- The `switch` of `ReadRecord` on the physical record read from `offset`. -/
def readRecordSwitch (offset : ℕ) (l : Scan C) (p : Physical) :
    Round (Scan C) (Option Slice × Reader C) :=
  match p.code with
  | .full =>
    .leave ((l.reportPartial "partial record without end(1)").returnRecord offset p.fragment)
  | .first =>
    .next { l.reportPartial "partial record without end(2)" with
      prospectiveRecordOffset := offset, scratch := p.fragment, inFragmentedRecord := true }
  | .middle =>
    if l.inFragmentedRecord then .next { l with scratch := l.scratch ++ p.fragment }
    else .next (l.report p.fragment.length "missing start of fragmented record(1)")
  | .last =>
    if l.inFragmentedRecord then
      .leave (l.returnRecord l.prospectiveRecordOffset (l.scratch ++ p.fragment))
    else .next (l.report p.fragment.length "missing start of fragmented record(2)")
  | .setCompression =>
    let l := { l with reader := l.reader.checkCompressionType p.fragment }.metadataAt offset
    .next { l with reader := l.reader.readCompressionType p.fragment }
  | .predecessorWALInfo =>
    let l := l.metadataAt offset
    .next { l with reader := l.reader.readPredecessorWALInfo opts mode p.fragment }
  | .userDefinedTimestampSize =>
    let l := (l.reportPartial
      "user-defined timestamp size record interspersed partial record").metadataAt offset
    .next { l with reader := l.reader.readTimestampSizes p.fragment }
  | .badHeader => .leave ((l.reportStrict mode p.dropSize "truncated header").leaveAtEof mode)
  | .eof => .leave (l.leaveAtEof mode)
  | .oldRecord =>
    if mode ≠ .skipAnyCorruptedRecords then .leave (l.leaveAtOldRecord mode)
    else .next l.dropPartial
  | .badRecord => .next l.dropPartial
  | .badRecordLen =>
    if l.reader.eof then
      .leave (none, (l.reportStrict mode p.dropSize "truncated record body").reader)
    else l.badFragment mode p.dropSize "bad record length"
  | .badRecordChecksum => l.badFragment mode p.dropSize "checksum mismatch"
  | .unknown type =>
    let l :=
      if type.val &&& 128 = 0 then
        l.report (p.fragment.length + if l.inFragmentedRecord then l.scratch.length else 0)
          ("unknown record type " ++ toString type.val)
      else l
    .next { l with inFragmentedRecord := false, scratch := [] }

/-- One round of the loop of `ReadRecord`. -/
def readRecordRound (l : Scan C) : Round (Scan C) (Option Slice × Reader C) :=
  let offset := l.reader.endOfBufferOffset - l.reader.buffer.length
  match readPhysicalRecord opts l.reader with
  | none => .next l
  | some (p, s) => readRecordSwitch opts mode offset { l with reader := s } p

/-- The variables at the start of `ReadRecord`; the decompressor is reset. -/
def startScan (s : Reader C) : Scan C :=
  { reader := { s with uncompress := s.uncompress.map fun _ => C.fresh } }

/-- A call of `ReadRecord` from `s` returns the record, if it returns true, and leaves the
reader in `s'`. -/
def ReadRecord (s : Reader C) (result : Option Slice) (s' : Reader C) :
    Prop :=
  Loop.Returns (readRecordRound opts mode) (startScan s) (result, s')

/-- Calls of `ReadRecord` until one returns false, the first of which is in the middle of
its loop: the records they return, and the reader afterwards. -/
inductive ReadsAll (mode : RecoveryMode) : Scan C → List Slice → Reader C → Prop
  | eof {l : Scan C} {s : Reader C}
      (last : Loop.Returns (readRecordRound opts mode) l (none, s)) : ReadsAll mode l [] s
  | record {l : Scan C} {s s' : Reader C} {r : Slice} {rs : List Slice}
      (first : Loop.Returns (readRecordRound opts mode) l (some r, s))
      (rest : ReadsAll mode (startScan s) rs s') : ReadsAll mode l (r :: rs) s'

/-- `ReadRecord` with a bound on the rounds. -/
def readRecord (fuel : ℕ) (s : Reader C) : Option (Option Slice × Reader C) :=
  Loop.run (readRecordRound opts mode) fuel (startScan s)

/-- At most `calls` calls, until one returns false. -/
def readAll (mode : RecoveryMode) (fuel : ℕ) : ℕ → Reader C → Option (List Slice)
  | 0, _ => none
  | calls + 1, s =>
    match readRecord opts mode fuel s with
    | none => none
    | some (none, _) => some []
    | some (some r, s) => (readAll mode fuel calls s).map (r :: ·)

/-- The reader on a file of the given bytes. -/
def openFile (C : Streaming) (bytes : Slice) : Reader C := { file := { unread := bytes } }

/-- A reader of the log of number `n`, with its checksums verified. -/
def plainOptions (n : UInt64) : ReaderOptions :=
  { crc := .additive, checksum := true, logNumber := n }

end Reader

end BucketLSM.Log
