import Mathlib.Data.List.Lex
import Mathlib.Data.Rat.Defs
import Mathlib.Algebra.Order.Ring.Rat
import Mathlib.Order.Fin.Basic
import Mathlib.Tactic.Common

/-!
# Byte strings and machine numbers

User keys are byte strings compared as `std::string` and `Slice` compare them: unsigned
bytes, lexicographically, a proper prefix first. That order is the one Mathlib puts on
`List (Fin 256)`.

Double arithmetic is only ever used by the engine to decide between branches, so it enters
the development as an arbitrary interpretation `Double D` of the operations the source
performs. Nothing is assumed about rounding. `ℚ` is the exact interpretation, used to run
the model on inputs whose quotients are exactly representable.
-/

namespace BucketLSM

/-- One `unsigned char`. -/
abbrev Byte := Fin 256

/-- A `std::string` or `Slice`. -/
abbrev Slice := List Byte

instance neZero_byteSize : @NeZero ℕ Zero.ofOfNat0 256 := ⟨by decide⟩

/-- The value of a byte read through a plain `char`, which is signed on x86-64. -/
def Byte.signed (b : Byte) : ℤ :=
  if b.val < 128 then b.val else (b.val : ℤ) - 256

/-- The operations on `double` the source uses, with no law about rounding. -/
class Double (D : Type) extends Add D, Sub D, Mul D, Div D where
  /-- `static_cast<double>` of an unsigned integer. -/
  ofNat : ℕ → D
  /-- A decimal literal of the source. -/
  lit : ℚ → D
  /-- `a < b`. -/
  lt : D → D → Bool
  /-- `a <= b`. -/
  le : D → D → Bool
  /-- `static_cast` to an unsigned integer, which truncates. -/
  toNat : D → ℕ

namespace Double

/-- Exact arithmetic: what `double` computes while every result is representable. -/
instance : Double ℚ where
  ofNat n := n
  lit q := q
  lt a b := decide (a < b)
  le a b := decide (a ≤ b)
  toNat a := a.floor.toNat

variable {D : Type} [Double D]

/-- `std::max`. -/
def max (a b : D) : D := if lt a b then b else a

/-- `std::abs`. -/
def abs (a : D) : D := if lt a (ofNat 0) then ofNat 0 - a else a

end Double

end BucketLSM
