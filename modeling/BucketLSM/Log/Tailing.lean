import BucketLSM.Log.Reader

/-!
# The tailing reader

`FragmentBufferedReader` of `db/log_reader.cc`. It reads a log that may still grow: a call of
`ReadRecord` that does not find a whole record returns false and keeps what it has read of
it, the fragments and the part of a block, for the next call.

`TryReadFragment` keeps a pointer to the header while it reads on. When the rest of a block
is read, the bytes are put behind those in the buffer and the pointer stays good. When a
whole block is read they take the place of the buffer, and the header with what belongs to it
then reaches beyond the block in memory. What stands there is not in the file; the model
takes it from a function `overread` about which nothing is assumed.
-/

namespace BucketLSM.Log

open Lib

namespace Reader

variable {C : Streaming} (opts : ReaderOptions) (overread : Reader C → Slice)

/-- What is left to read; a byte still in the file counts twice, so that it counts for less
once it is in the buffer. -/
def toRead (s : Reader C) : ℕ := 2 * s.file.unread.length + s.buffer.length

/-! ## Reading on -/

/-- `UnmarkEOFInternal`: the rest of the block is read, as far as there is one by now. -/
def unmarkEOFInternal (s : Reader C) : Reader C :=
  let remaining := blockSize - s.eofOffset
  let (ok, bytes, file) := s.file.read remaining
  let s := { s with file, endOfBufferOffset := s.endOfBufferOffset + bytes.length }
  if !ok then
    { s with
      readError := true
      reports := s.reports ++ if bytes.length > 0 then [.drop bytes.length] else [] }
  else
    let s := { s with buffer := s.buffer ++ bytes }
    if bytes.length < remaining then
      { s with eof := true, eofOffset := s.eofOffset + bytes.length }
    else { s with eofOffset := 0 }

/-- `FragmentBufferedReader::UnmarkEOF`. -/
def unmarkEOF (s : Reader C) : Reader C :=
  if s.readError then s else unmarkEOFInternal { s with eof := false }

/-- `TryReadMore`, and whether it returns true. The error and the drop size it leaves
otherwise are not read: `ReadRecord` returns false then. -/
def tryReadMore (s : Reader C) : Bool × Reader C :=
  if !s.eof && !s.readError then
    let (ok, bytes, file) := s.file.read blockSize
    let s := { s with file, endOfBufferOffset := s.endOfBufferOffset + bytes.length }
    if !ok then
      (false, { s with buffer := [], readError := true, reports := s.reports ++ [.drop blockSize] })
    else if bytes.length < blockSize then
      (true, { s with buffer := bytes, eof := true, eofOffset := bytes.length })
    else (true, { s with buffer := bytes })
  else
    let s := s.unmarkEOF
    if !s.readError then (true, s) else (false, { s with buffer := [] })

end Reader

/-- A reader in the loops of `TryReadFragment` that fill the buffer. `moved` tells that a
whole block was read since the header was found. -/
structure Refill (C : Streaming) where
  reader : Reader C
  moved : Bool := false

namespace Refill

variable {C : Streaming}

/-- One round of such a loop, which leaves with whether the `need` bytes are there. -/
def round (need : ℕ) (f : Refill C) : Round (Refill C) (Bool × Refill C) :=
  if need ≤ f.reader.buffer.length then .leave (true, f)
  else
    let moved := f.moved || (!f.reader.eof && !f.reader.readError)
    match f.reader.tryReadMore with
    | (false, s) => .leave (false, ⟨s, moved⟩)
    | (true, s) =>
      if s.buffer.length = f.reader.buffer.length then .leave (false, ⟨s, moved⟩)
      else .next ⟨s, moved⟩

/-- The loop. The rounds are enough, see `returns_refill`. -/
def refill (need : ℕ) (f : Refill C) : Bool × Refill C :=
  (Loop.run (round need) (f.reader.toRead + 1) f).getD (false, f)

/-- What the header pointer points to. -/
def header (overread : Reader C → Slice) (f : Refill C) : Slice :=
  if f.moved then overread f.reader else f.reader.buffer

end Refill

namespace Reader

variable {C : Streaming} (opts : ReaderOptions) (overread : Reader C → Slice)

/-- `TryReadFragment` once the header and the log number are read. `dropSize` is the drop
size from before. -/
def readFragmentBody (dropSize : ℕ) (h : Header) (f : Refill C) : Option Physical × Reader C :=
  match f.refill (h.size + h.length) with
  | (false, f) => (none, f.reader)
  | (true, f) =>
    if h.type == RecordType.zero.code && h.length == 0 then
      (some ⟨.badRecord, [], dropSize⟩, { f.reader with buffer := [] })
    else if badChecksum opts h (f.header overread) then
      (some ⟨.badRecordChecksum, [], f.reader.buffer.length⟩, { f.reader with buffer := [] })
    else
      match f.reader.deliver h (f.header overread) with
      | (p, s) => (some { p with dropSize }, s)

/-- `TryReadFragment` for a header of the recyclable format. -/
def readRecyclable (dropSize : ℕ) (h : Header) (s : Reader C) : Option Physical × Reader C :=
  -- a recycled log should have started with a recycled record
  if s.firstRecordRead && !s.recycled then (some ⟨.badRecord, [], dropSize⟩, s)
  else
    match Refill.refill recyclableHeaderSize ⟨{ s with recycled := true }, false⟩ with
    | (false, f) => (none, f.reader)
    | (true, f) =>
      -- the record stays in the buffer
      if logNum (f.header overread) != opts.logNumber.toNat then
        (some ⟨.oldRecord, [], dropSize⟩, f.reader)
      else readFragmentBody opts overread dropSize h f

/-- `TryReadFragment`, with a physical record when it returns true. -/
def tryReadFragment (dropSize : ℕ) (s : Reader C) : Option Physical × Reader C :=
  match Refill.refill headerSize ⟨s, false⟩ with
  | (false, f) => (none, f.reader)
  | (true, f) =>
    let h := Header.parse f.reader.buffer
    if h.recyclable then readRecyclable opts overread dropSize h f.reader
    else readFragmentBody opts overread dropSize h ⟨f.reader, false⟩

end Reader

/-! ## `ReadRecord` -/

/-- A `FragmentBufferedReader` with the variables of its `ReadRecord`. Those of `Scan` are
the same, but `scratch` is `fragments_`, which like `inFragmentedRecord` outlives a call, and
`dropSize` outlives a round. -/
structure FragmentBufferedReader (C : Streaming) extends Scan C where
  dropSize : ℕ := 0

namespace FragmentBufferedReader

variable {C : Streaming} (opts : ReaderOptions) (overread : Reader C → Slice)
  (l : FragmentBufferedReader C)

/-- A change to what is read. -/
def update (f : Scan C → Scan C) : FragmentBufferedReader C :=
  { l with toScan := f l.toScan }

/-- What has been read of a record is forgotten. -/
def clear : FragmentBufferedReader C :=
  { l with scratch := [], inFragmentedRecord := false }

/-- A metadata record is met: it is handed to `read`. -/
def metadata (offset : ℕ) (read : Reader C → Reader C) :
    FragmentBufferedReader C :=
  let l := (l.update (·.metadataAt offset)).clear
  { l with reader := read l.reader }

/-- The return of a record that began at `offset`. -/
def returnRecord (offset : ℕ) (record : Slice) :
    Option Slice × FragmentBufferedReader C :=
  (some record, { l.clear with reader := l.reader.markRecord offset })

variable (mode : RecoveryMode)

/-- The `switch` of `ReadRecord`; `offset` is where the call began to read. -/
def readRecordSwitch (offset : ℕ) (l : FragmentBufferedReader C)
    (p : Physical) : Round (FragmentBufferedReader C) (Option Slice × FragmentBufferedReader C) :=
  match p.code with
  | .full =>
    let l := l.update (·.reportPartial "partial record without end(1)")
    .leave (l.returnRecord offset p.fragment)
  | .first =>
    let l :=
      if l.inFragmentedRecord || !l.scratch.isEmpty then
        l.update (·.report l.scratch.length "partial record without end(2)")
      else l
    .next { l with
      prospectiveRecordOffset := offset, scratch := p.fragment, inFragmentedRecord := true }
  | .middle =>
    if l.inFragmentedRecord then .next { l with scratch := l.scratch ++ p.fragment }
    else .next (l.update (·.report p.fragment.length "missing start of fragmented record(1)"))
  | .last =>
    if l.inFragmentedRecord then
      .leave (l.returnRecord l.prospectiveRecordOffset (l.scratch ++ p.fragment))
    else .next (l.update (·.report p.fragment.length "missing start of fragmented record(2)"))
  | .setCompression =>
    let l := { l with reader := l.reader.checkCompressionType p.fragment }
    .next (l.metadata offset (·.readCompressionType p.fragment))
  | .predecessorWALInfo =>
    .next (l.metadata offset (·.readPredecessorWALInfo opts mode p.fragment))
  | .userDefinedTimestampSize =>
    -- `scratch` is empty until a record is returned, so a partial record is not reported
    .next (l.metadata offset (·.readTimestampSizes p.fragment))
  | .badHeader => .next (l.update (·.dropPartial))
  | .badRecord => .next (l.update (·.dropPartial))
  | .eof => .next (l.update (·.dropPartial))
  | .oldRecord => .next (l.update (·.dropPartial))
  | .badRecordChecksum =>
    if l.reader.recycled then .leave (none, { l with scratch := [] })
    else .next (l.update fun l' => (l'.report l.dropSize "checksum mismatch").dropPartial)
  -- as a type byte this one is among those that are ignored
  | .badRecordLen => .next l.clear
  | .unknown type =>
    let l :=
      if type.val &&& 128 = 0 then
        l.update (·.report
          (p.fragment.length + if l.inFragmentedRecord then l.scratch.length else 0)
          ("unknown record type " ++ toString type.val))
      else l
    .next l.clear

/-- One round of the loop of `ReadRecord`. -/
def readRecordRound (offset : ℕ) (l : FragmentBufferedReader C) :
    Round (FragmentBufferedReader C) (Option Slice × FragmentBufferedReader C) :=
  match l.reader.tryReadFragment opts overread l.dropSize with
  | (none, s) => .leave (none, { l with reader := s })
  | (some p, s) =>
    readRecordSwitch opts mode offset { l with reader := s, dropSize := p.dropSize } p

/-- The variables at the start of `ReadRecord`; the decompressor is reset. -/
def start : FragmentBufferedReader C :=
  { l with
    reader := { l.reader with uncompress := l.reader.uncompress.map fun _ => C.fresh }
    prospectiveRecordOffset := 0
    dropSize := 0 }

/-- Where a call begins to read. -/
def physicalRecordOffset : ℕ :=
  l.reader.endOfBufferOffset - l.reader.buffer.length

/-- A call of `ReadRecord` returns the record, if it returns true, and leaves `l'`. -/
def ReadRecord (l : FragmentBufferedReader C) (result : Option Slice)
    (l' : FragmentBufferedReader C) : Prop :=
  Loop.Returns (readRecordRound opts overread mode l.physicalRecordOffset) l.start (result, l')

end FragmentBufferedReader

end BucketLSM.Log
