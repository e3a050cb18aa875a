import BucketLSM.Bytes
import BucketLSM.Lib.LittleEndian

/-!
# The log format

`db/log_format.h`: a log file is a sequence of blocks of 32 KiB. A physical record never
crosses a block; it has a header of seven bytes (checksum, length, type) or, in the
recyclable format, of eleven (the low half of the log number follows the type).

The checksum is any function with the two laws the writer uses to build it from pieces;
`crc32c::Mask` and `Unmask` are those of the source. The metadata records (timestamp sizes,
predecessor WAL) are encoded as `util/udt_util.h` and `db/dbformat.h` do.
-/

namespace BucketLSM.Log

open Lib LittleEndian List

/-! ## Sizes and record types -/

/-- `kBlockSize`. -/
def blockSize : ℕ := 32768

/-- `kHeaderSize`. -/
def headerSize : ℕ := 7

/-- `kRecyclableHeaderSize`. -/
def recyclableHeaderSize : ℕ := 11

/-- `RecordType`. -/
inductive RecordType
  | zero
  | full
  | first
  | middle
  | last
  | recyclableFull
  | recyclableFirst
  | recyclableMiddle
  | recyclableLast
  | setCompression
  | userDefinedTimestampSize
  | recyclableUserDefinedTimestampSize
  | predecessorWALInfo
  | recyclePredecessorWALInfo
deriving DecidableEq, Repr

open RecordType

/-- The byte a type is stored as. -/
def RecordType.code : RecordType → Byte
  | zero => 0
  | full => 1
  | first => 2
  | middle => 3
  | last => 4
  | recyclableFull => 5
  | recyclableFirst => 6
  | recyclableMiddle => 7
  | recyclableLast => 8
  | setCompression => 9
  | userDefinedTimestampSize => 10
  | recyclableUserDefinedTimestampSize => 11
  | predecessorWALInfo => 130
  | recyclePredecessorWALInfo => 131

/-- The types `EmitPhysicalRecord` writes with the short header. -/
def RecordType.isLegacy (t : RecordType) : Bool :=
  t.code.val < RecordType.recyclableFull.code.val || t == .setCompression ||
    t == .predecessorWALInfo || t == .userDefinedTimestampSize

/-- `is_recyclable_type` of a type byte. -/
def isRecyclableType (t : Byte) : Bool :=
  (RecordType.recyclableFull.code ≤ t && t ≤ RecordType.recyclableLast.code) ||
    t == RecordType.recyclableUserDefinedTimestampSize.code ||
    t == RecordType.recyclePredecessorWALInfo.code

@[simp]
lemma isRecyclableType_code (t : RecordType) : isRecyclableType t.code = !t.isLegacy := by
  cases t <;> decide

/-- The header size of a record of type `t`. -/
def RecordType.headerSize (t : RecordType) : ℕ :=
  if t.isLegacy then Log.headerSize else recyclableHeaderSize

lemma RecordType.le_headerSize (t : RecordType) : 7 ≤ t.headerSize := by
  cases t <;> decide

/-! ## Checksums -/

/-- `crc32c`: a checksum of byte strings that can be extended by more bytes and combined
with the checksum of what follows. -/
structure Crc32c where
  value : Slice → UInt32
  extend : UInt32 → Slice → UInt32
  combine : UInt32 → UInt32 → ℕ → UInt32
  extend_value : ∀ a b, extend (value a) b = value (a ++ b)
  combine_value : ∀ a b, combine (value a) (value b) b.length = value (a ++ b)

/-- The sum of the bytes: a checksum with these laws, to run the model with. -/
def Crc32c.additive : Crc32c where
  value s := (s.map fun b => UInt32.ofNat b.val).sum
  extend crc s := crc + (s.map fun b => UInt32.ofNat b.val).sum
  combine crc₁ crc₂ _ := crc₁ + crc₂
  extend_value a b := by simp
  combine_value a b := by simp

/-- `kMaskDelta`. -/
def maskDelta : UInt32 := 0xa282ead8

/-- `crc32c::Mask`. -/
def mask (crc : UInt32) : UInt32 := ((crc >>> 15) ||| (crc <<< 17)) + maskDelta

/-- `crc32c::Unmask`. -/
def unmask (masked : UInt32) : UInt32 :=
  let rot := masked - maskDelta
  (rot >>> 17) ||| (rot <<< 15)

lemma unmask_mask (crc : UInt32) : unmask (mask crc) = crc := by
  have hrot : mask crc - maskDelta = (crc >>> 15) ||| (crc <<< 17) := by
    simp [mask]
  unfold unmask
  rw [hrot]
  apply UInt32.toBitVec_inj.1
  apply BitVec.eq_of_getLsbD_eq
  intro i hi
  -- the two rotations bring bit `i` back to its place, through either half
  by_cases h : i < 15
  · have hhigh : crc.toBitVec.getLsbD (15 + (17 + i)) = false :=
      BitVec.getLsbD_of_ge _ _ (by omega)
    have hlow : 17 + i < 32 := by omega
    simp [h, hi, hhigh, hlow]
  · have hback : 15 + (i - 15) = i := by omega
    have hhigh : crc.toBitVec.getLsbD (15 + (17 + i)) = false :=
      BitVec.getLsbD_of_ge _ _ (by omega)
    have hlow : ¬ 17 + i < 32 := by omega
    have hshort : i - 15 < 17 := by omega
    simp [h, hi, hhigh, hlow, hback, hshort]

/-! ## Metadata records -/

/-- `GetFixed16`, `GetFixed32` and `GetFixed64`: a number of `w` bytes taken from the front. -/
def getFixed (w : ℕ) (input : Slice) : Option (ℕ × Slice) :=
  if input.length < w then none
  else some (LittleEndian.decode (input.take w), input.drop w)

lemma getFixed_encode (w n : ℕ) (rest : Slice) :
    getFixed w (encode w n ++ rest) = some (n % 256 ^ w, rest) := by
  have hlen := length_encode w n
  have htake : (encode w n ++ rest).take w = encode w n := by
    rw [take_append_of_le_length (by omega), take_of_length_le (by omega)]
  have hdrop : (encode w n ++ rest).drop w = rest := by
    rw [drop_append_of_le_length (by omega), drop_of_length_le (by omega), nil_append]
  rw [getFixed, if_neg (by simp), htake, hdrop, decode_encode]

/-- `PredecessorWALInfo`, once initialized. -/
structure PredecessorWALInfo where
  logNumber : UInt64
  sizeBytes : UInt64
  lastSeqnoRecorded : UInt64
deriving DecidableEq, Repr

namespace PredecessorWALInfo

/-- `EncodeTo`. -/
def encodeTo (info : PredecessorWALInfo) : Slice :=
  LittleEndian.encode 8 info.logNumber.toNat ++ LittleEndian.encode 8 info.sizeBytes.toNat ++
    LittleEndian.encode 8 info.lastSeqnoRecorded.toNat

/-- `DecodeFrom`, with what it leaves of the input. -/
def decodeFrom (src : Slice) : Option PredecessorWALInfo × Slice :=
  match getFixed 8 src with
  | none => (none, src)
  | some (logNumber, src) =>
    match getFixed 8 src with
    | none => (none, src)
    | some (sizeBytes, src) =>
      match getFixed 8 src with
      | none => (none, src)
      | some (lastSeqno, src) =>
        (some ⟨UInt64.ofNat logNumber, UInt64.ofNat sizeBytes, UInt64.ofNat lastSeqno⟩, src)

lemma decodeFrom_encodeTo (info : PredecessorWALInfo) :
    decodeFrom info.encodeTo = (some info, []) := by
  unfold decodeFrom encodeTo
  rw [append_assoc, getFixed_encode]
  simp only [getFixed_encode]
  rw [← append_nil (encode 8 info.lastSeqnoRecorded.toNat), getFixed_encode]
  simp

end PredecessorWALInfo

/-- The entries of a `UserDefinedTimestampSizeRecord`: column families and the sizes of
their timestamps. -/
abbrev TimestampSizes := List (UInt32 × ℕ)

namespace TimestampSizes

/-- `UserDefinedTimestampSizeRecord::EncodeTo`; the size is cast to 16 bits. -/
def encodeTo : TimestampSizes → Slice
  | [] => []
  | (cf, size) :: rest =>
    encode 4 cf.toNat ++ encode 2 size ++ encodeTo rest

/-- The loop of `UserDefinedTimestampSizeRecord::DecodeFrom` over `entries` entries. -/
def decodeEntries : ℕ → Slice → Option TimestampSizes × Slice
  | 0, src => (some [], src)
  | entries + 1, src =>
    match getFixed 4 src with
    | none => (none, src)
    | some (cf, src) =>
      match getFixed 2 src with
      | none => (none, src)
      | some (size, src) =>
        match decodeEntries entries src with
        | (none, src) => (none, src)
        | (some rest, src) => (some ((UInt32.ofNat cf, size) :: rest), src)

/-- `UserDefinedTimestampSizeRecord::DecodeFrom`, with what it leaves of the input. -/
def decodeFrom (src : Slice) : Option TimestampSizes × Slice :=
  if src.length % 6 ≠ 0 then (none, src) else decodeEntries (src.length / 6) src

@[simp]
lemma length_encodeTo (sizes : TimestampSizes) : (encodeTo sizes).length = 6 * sizes.length := by
  induction sizes with
  | nil => rfl
  | cons entry rest ih =>
    simp [encodeTo, ih]
    omega

/-- The entries with the sizes as they are stored, in 16 bits. -/
def stored (sizes : TimestampSizes) : TimestampSizes :=
  sizes.map fun entry => (entry.1, entry.2 % 2 ^ 16)

@[simp]
lemma map_fst_stored (sizes : TimestampSizes) : sizes.stored.map Prod.fst = sizes.map Prod.fst := by
  simp [stored, Function.comp_def]

lemma forall_mem_stored {sizes : TimestampSizes} :
    (∀ entry ∈ sizes.stored, entry.2 ≠ 0) ↔ ∀ entry ∈ sizes, entry.2 % 2 ^ 16 ≠ 0 :=
  forall_mem_map

lemma decodeFrom_encodeTo (sizes : TimestampSizes) :
    decodeFrom (encodeTo sizes) = (some sizes.stored, []) := by
  have hentries : decodeEntries sizes.length (encodeTo sizes) = (some sizes.stored, []) := by
    induction sizes with
    | nil => rfl
    | cons entry rest ih =>
      have hcf : entry.1.toNat % 256 ^ 4 = entry.1.toNat := Nat.mod_eq_of_lt entry.1.toNat_lt
      simp only [encodeTo, length_cons, decodeEntries, append_assoc, getFixed_encode, ih, hcf]
      simp [stored]
  have hdiv : 6 * sizes.length / 6 = sizes.length := by omega
  simp [decodeFrom, hdiv, hentries]

end TimestampSizes

/-! ## Compression -/

/-- `StreamingCompress` and `StreamingUncompress`, whatever they compute: `compress` lists
the outputs of the `Compress` calls one record takes (the first apart, there always is one),
and `uncompress` is the loop of `Uncompress` calls on one fragment, `none` when a call fails.
`fresh` is the state after `Create` or `Reset`. -/
structure Streaming where
  supported : ℕ → Bool
  State : Type
  fresh : State
  compress : Slice → Slice × List Slice
  uncompress : State → Slice → Option Slice × State

namespace Streaming

/-- A stream that copies its input, to run the model with. -/
def copying : Streaming where
  supported type := type == 7
  State := Unit
  fresh := ()
  compress slice := (slice, [])
  uncompress _ piece := (some piece, ())

end Streaming

/-- `CompressionTypeRecord::DecodeFrom`, with what it leaves of the input; the enumeration
is one byte wide. -/
def decodeCompressionType (C : Streaming) (src : Slice) : Option ℕ × Slice :=
  match getFixed 4 src with
  | none => (none, src)
  | some (val, src) =>
    if C.supported (val % 256) then (some (val % 256), src) else (none, src)

end BucketLSM.Log
