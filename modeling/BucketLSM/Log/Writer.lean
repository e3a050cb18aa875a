import BucketLSM.Log.Format

/-!
# The log writer

`db/log_writer.cc`. A writer cuts each record into physical records so that none crosses a
block, and pads a block whose rest is too short for a header with zeros. Metadata records
are not cut: when they do not fit, the whole rest of the block is padded.

A call whose `assert` fails has no result. Appends to the file succeed.
-/

namespace BucketLSM.Log

open Lib LittleEndian

/-- `log::Writer`. `dest` is what has been appended to the file; `compress` tells whether a
compression type record has been written, after which records go through the stream. -/
structure Writer where
  dest : Slice := []
  blockOffset : ℕ := 0
  logNumber : UInt64
  recycleLogFiles : Bool
  compressionType : Option ℕ := none
  compress : Bool := false
  trackAndVerifyWals : Bool := false
  lastSeqnoRecorded : ℕ := 0
  recordedCfToTsSz : TimestampSizes := []

/-- A physical record: its type and its payload. -/
structure Fragment where
  type : RecordType
  payload : Slice
deriving DecidableEq, Repr

namespace Fragment

/-- The bytes of a physical record take in the file. -/
def size (f : Fragment) : ℕ := f.type.headerSize + f.payload.length

/-- The low 32 bits of the log number, in a header of the recyclable format. -/
def logField (logNumber : UInt64) (f : Fragment) : Slice :=
  if f.type.isLegacy then [] else LittleEndian.encode 4 logNumber.toNat

/-- The checksum `EmitPhysicalRecord` puts together: type, log number, payload. -/
def checksum (crc : Crc32c) (logNumber : UInt64) (f : Fragment) : UInt32 :=
  let header := crc.value [f.type.code]
  let header :=
    if f.type.isLegacy then header else crc.extend header (LittleEndian.encode 4 logNumber.toNat)
  mask (crc.combine header (crc.value f.payload) f.payload.length)

/-- The bytes `EmitPhysicalRecord` appends. -/
def encode (crc : Crc32c) (logNumber : UInt64) (f : Fragment) : Slice :=
  LittleEndian.encode 4 (f.checksum crc logNumber).toNat ++
    LittleEndian.encode 2 f.payload.length ++ [f.type.code] ++ f.logField logNumber ++ f.payload

end Fragment

/-- The type of a fragment of a data record. -/
def fragmentType (recycle begins ends : Bool) : RecordType :=
  if begins && ends then if recycle then .recyclableFull else .full
  else if begins then if recycle then .recyclableFirst else .first
  else if ends then if recycle then .recyclableLast else .last
  else if recycle then .recyclableMiddle else .middle

namespace Writer

variable (crc : Crc32c)

/-- A writer on a new file, without compression. -/
def create (logNumber : UInt64) (recycle track : Bool) : Writer :=
  { logNumber, recycleLogFiles := recycle, trackAndVerifyWals := track }

/-- `header_size_`. -/
def headerSize (w : Writer) : ℕ :=
  if w.recycleLogFiles then recyclableHeaderSize else Log.headerSize

variable (w : Writer)

/-- `EmitPhysicalRecord`. -/
def emitPhysicalRecord (f : Fragment) : Option Writer :=
  if f.payload.length ≤ 0xffff ∧ w.blockOffset + f.size ≤ blockSize then
    some { w with
      dest := w.dest ++ f.encode crc w.logNumber
      blockOffset := w.blockOffset + f.size }
  else none

/-- The padding of the rest of a block, before a new one is begun. -/
def padBlock : Writer :=
  { w with dest := w.dest ++ List.replicate (blockSize - w.blockOffset) 0, blockOffset := 0 }

/-- The switch to a new block at the head of the loop of `AddRecord`. -/
def switchBlock : Writer :=
  if blockSize - w.blockOffset < w.headerSize then w.padBlock else w

/-- `MaybeSwitchToNewBlock`. -/
def maybeSwitchToNewBlock (content : Slice) : Writer :=
  if blockSize - w.blockOffset < w.headerSize + content.length then w.padBlock else w

/-- One round of the loop of `AddRecord` once `left` is known: the writer after the fragment
and what is left of the bytes at hand. `outputs` are the compressed outputs still to come. -/
def addFragment (begins : Bool) (left : Slice) (outputs : List Slice) :
    Option (Writer × Slice) :=
  let avail := blockSize - w.blockOffset - w.headerSize
  let fragment := left.take avail
  let ends := fragment.length = left.length ∧ outputs = []
  match w.emitPhysicalRecord crc ⟨fragmentType w.recycleLogFiles begins ends, fragment⟩ with
  | none => none
  | some w => some (w, left.drop avail)

/-- The rounds of `AddRecord` after the first. An empty output of the compressor ends the
record early. -/
def addFragments : ℕ → Writer → Slice → List Slice → Option Writer
  | 0, _, _, _ => none
  | _ + 1, w, [], [] => some w
  | _ + 1, w, [], [] :: _ => some w.switchBlock
  | fuel + 1, w, [], (b :: bs) :: outputs =>
    match w.switchBlock.addFragment crc false (b :: bs) outputs with
    | none => none
    | some (w, left) => addFragments fuel w left outputs
  | fuel + 1, w, b :: bs, outputs =>
    match w.switchBlock.addFragment crc false (b :: bs) outputs with
    | none => none
    | some (w, left) => addFragments fuel w left outputs

/-- Rounds that are enough for `addFragments`: one for each byte and output, and one more
wherever a fragment is empty because a block has room for a header only. -/
def addRecordFuel (left : Slice) (outputs : List Slice) : ℕ :=
  2 * (left.length + (outputs.map List.length).sum + outputs.length) + 2

variable (C : Streaming)

/-- `AddRecord`. -/
def addRecord (w : Writer) (slice : Slice) (seqno : ℕ) : Option Writer :=
  let (left, outputs) := if w.compress then C.compress slice else (slice, [])
  match w.switchBlock.addFragment crc true left outputs with
  | none => none
  | some (w, left) =>
    match addFragments crc (addRecordFuel left outputs) w left outputs with
    | none => none
    | some w => some { w with lastSeqnoRecorded := max w.lastSeqnoRecorded seqno }

/-- `AddCompressionTypeRecord`. -/
def addCompressionTypeRecord : Option Writer :=
  if w.blockOffset = 0 then
    match w.compressionType with
    | none => some w
    | some type =>
      match w.emitPhysicalRecord crc ⟨.setCompression, LittleEndian.encode 4 type⟩ with
      | none => none
      | some w => some { w with compress := true }
  else none

/-- `MaybeAddPredecessorWALInfo`. -/
def maybeAddPredecessorWALInfo (info : Option PredecessorWALInfo) : Option Writer :=
  match info with
  | none => some w
  | some info =>
    if w.trackAndVerifyWals then
      let type := if w.recycleLogFiles then .recyclePredecessorWALInfo else .predecessorWALInfo
      (w.maybeSwitchToNewBlock info.encodeTo).emitPhysicalRecord crc ⟨type, info.encodeTo⟩
    else some w

/-- The loop of `MaybeAddUserDefinedTimestampSizeRecord` over the column families: the
entries to record and those recorded afterwards. -/
def timestampSizesToRecord :
    TimestampSizes → TimestampSizes → Option (TimestampSizes × TimestampSizes)
  | recorded, [] => some ([], recorded)
  | recorded, (cf, size) :: rest =>
    match recorded.lookup cf with
    | some known => if known = size then timestampSizesToRecord recorded rest else none
    | none =>
      if size ≠ 0 then
        match timestampSizesToRecord (recorded ++ [(cf, size)]) rest with
        | none => none
        | some (toRecord, recorded) => some ((cf, size) :: toRecord, recorded)
      else timestampSizesToRecord recorded rest

/-- `MaybeAddUserDefinedTimestampSizeRecord`. -/
def maybeAddUserDefinedTimestampSizeRecord (cfToTsSz : TimestampSizes) :
    Option Writer :=
  match timestampSizesToRecord w.recordedCfToTsSz cfToTsSz with
  | none => none
  | some (toRecord, recorded) =>
    let w := { w with recordedCfToTsSz := recorded }
    if toRecord = [] then some w
    else
      let type :=
        if w.recycleLogFiles then .recyclableUserDefinedTimestampSize
        else .userDefinedTimestampSize
      (w.maybeSwitchToNewBlock toRecord.encodeTo).emitPhysicalRecord crc ⟨type, toRecord.encodeTo⟩

end Writer

/-- A call on a writer. -/
inductive WriterCall
  | addRecord (slice : Slice) (seqno : ℕ)
  | addCompressionTypeRecord
  | maybeAddPredecessorWALInfo (info : Option PredecessorWALInfo)
  | maybeAddUserDefinedTimestampSizeRecord (cfToTsSz : TimestampSizes)

namespace Writer

variable (crc : Crc32c) (C : Streaming)

def call (w : Writer) : WriterCall → Option Writer
  | .addRecord slice seqno => w.addRecord crc C slice seqno
  | .addCompressionTypeRecord => w.addCompressionTypeRecord crc
  | .maybeAddPredecessorWALInfo info => w.maybeAddPredecessorWALInfo crc info
  | .maybeAddUserDefinedTimestampSizeRecord cfToTsSz =>
    w.maybeAddUserDefinedTimestampSizeRecord crc cfToTsSz

/-- A sequence of calls. -/
def calls (w : Writer) : List WriterCall → Option Writer
  | [] => some w
  | c :: cs =>
    match w.call crc C c with
    | none => none
    | some w => calls w cs

end Writer

end BucketLSM.Log
