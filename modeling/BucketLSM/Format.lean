import BucketLSM.Bytes
import Mathlib.Data.Prod.Lex
import Mathlib.Order.OrderDual

/-!
# Internal keys and status codes

`db/dbformat.h`: every version of a user key is stored under an internal key, the user key
followed by a footer that packs the sequence number and the value type. The internal order
is the user order first, then the footer, newest first.
-/

namespace BucketLSM

/-- The codes of `Status` that memtables, iterators and flush jobs tell apart. -/
inductive Status
  | ok
  | notFound
  | corruption
  | notSupported
  | invalidArgument
  | ioError
  | mergeInProgress
  | aborted
  | shutdownInProgress
  | columnFamilyDropped
deriving DecidableEq, Repr

/-- The value types that occur in memtables and table files; those of the write-ahead log
are left out. `maxValid` bounds the valid types and is only used in artificial keys. -/
inductive ValueType
  | deletion
  | value
  | merge
  | singleDeletion
  | rangeDeletion
  | blobIndex
  | deletionWithTimestamp
  | wideColumnEntity
  | valuePreferredSeqno
  | maxValid
deriving DecidableEq, Repr

namespace ValueType

/-- The byte a type is encoded as. -/
def code : ValueType → ℕ
  | deletion => 0x0
  | value => 0x1
  | merge => 0x2
  | singleDeletion => 0x7
  | rangeDeletion => 0xF
  | blobIndex => 0x11
  | deletionWithTimestamp => 0x14
  | wideColumnEntity => 0x16
  | valuePreferredSeqno => 0x18
  | maxValid => 0x1A

theorem code_lt (t : ValueType) : t.code < 256 := by
  cases t <;> decide

theorem code_injective : Function.Injective code := by
  intro a b h
  cases a <;> cases b <;> first | rfl | exact absurd h (by decide)

end ValueType

/-- `kMaxSequenceNumber`. -/
def maxSequenceNumber : ℕ := 2 ^ 56 - 1

/-- `kRangeTombstoneSentinel`, the footer of a largest key that is the exclusive end of a
range tombstone. -/
def rangeTombstoneSentinel : ℕ := maxSequenceNumber * 256 + ValueType.rangeDeletion.code

/-- A parsed internal key over the user keys `K`. -/
@[ext]
structure InternalKey (K : Type) where
  userKey : K
  sequence : ℕ
  type : ValueType
deriving DecidableEq, Repr

namespace InternalKey

variable {K : Type}

/-- `PackSequenceAndType`. -/
def footer (k : InternalKey K) : ℕ := k.sequence * 256 + k.type.code

/-- The key as a pair ordered by user key, then by decreasing footer. -/
def toPair (k : InternalKey K) : K ×ₗ ℕᵒᵈ := toLex (k.userKey, OrderDual.toDual k.footer)

variable {a b : InternalKey K}

theorem footer_inj (h : a.footer = b.footer) : a.sequence = b.sequence ∧ a.type = b.type := by
  have ha := a.type.code_lt
  have hb := b.type.code_lt
  unfold footer at h
  exact ⟨by omega, ValueType.code_injective (by omega)⟩

theorem toPair_injective : Function.Injective (toPair (K := K)) := by
  intro a b h
  obtain ⟨hu, hf⟩ : a.userKey = b.userKey ∧ a.footer = b.footer := by
    simpa [toPair] using h
  obtain ⟨hs, ht⟩ := footer_inj hf
  exact InternalKey.ext hu hs ht

/-- `InternalKeyComparator::Compare`. -/
instance [LinearOrder K] : LinearOrder (InternalKey K) :=
  LinearOrder.lift' toPair toPair_injective

variable [LinearOrder K]

theorem lt_iff : a < b ↔ a.userKey < b.userKey ∨ a.userKey = b.userKey ∧ b.footer < a.footer :=
  Prod.Lex.toLex_lt_toLex

theorem le_iff : a ≤ b ↔ a.userKey < b.userKey ∨ a.userKey = b.userKey ∧ b.footer ≤ a.footer :=
  Prod.Lex.toLex_le_toLex

theorem userKey_le (h : a ≤ b) : a.userKey ≤ b.userKey := by
  rcases le_iff.1 h with h | h
  · exact h.le
  · exact h.1.le

end InternalKey

end BucketLSM
