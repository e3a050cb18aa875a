import Mathlib

/-!
# Rows of bits and columns of bits

A row of coefficients is a bit vector that stands at a place of a column of bits; their product is a
bit, computed in the field of two elements. Rows are added by exclusive or, and a row whose lowest
bits are zero is the same as its shift at a later place.
-/

namespace BucketLSM.Lib

open Finset

/-- A bit as an element of the field. -/
def bit (b : Bool) : ZMod 2 := if b then 1 else 0

@[simp] lemma bit_false : bit false = 0 := rfl

@[simp] lemma bit_true : bit true = 1 := rfl

lemma bit_xor : ∀ a b : Bool, bit (a ^^ b) = bit a + bit b := by decide

lemma bit_and : ∀ a b : Bool, bit (a && b) = bit a * bit b := by decide

lemma bit_injective : Function.Injective bit := by
  intro a b
  revert a b
  decide

lemma bit_add_self (a : ZMod 2) : a + a = 0 := CharTwo.add_self_eq_zero a

variable {r : ℕ}

/-- The product of a row at place `i` with a column. -/
def dot (row : BitVec r) (i : ℕ) (column : ℕ → Bool) : ZMod 2 :=
  ∑ k ∈ range r, bit (row.getLsbD k) * bit (column (i + k))

lemma dot_xor (row row' : BitVec r) (i : ℕ) (column : ℕ → Bool) :
    dot (row ^^^ row') i column = dot row i column + dot row' i column := by
  simp only [dot, BitVec.getLsbD_xor, bit_xor, add_mul, sum_add_distrib]

/-- A sum over more places than the row has. -/
lemma dot_eq_sum (row : BitVec r) (i m : ℕ) (column : ℕ → Bool) :
    dot row i column = ∑ k ∈ range (r + m), bit (row.getLsbD k) * bit (column (i + k)) := by
  rw [sum_range_add, dot, left_eq_add]
  refine sum_eq_zero fun k _ => ?_
  rw [BitVec.getLsbD_of_ge row (r + k) (Nat.le_add_right r k), bit_false, zero_mul]

/-- A row without its lowest bits, which are zero, is the same at a later place. -/
lemma dot_shift {row : BitVec r} {t : ℕ} (hlow : ∀ k < t, row.getLsbD k = false) (i : ℕ)
    (column : ℕ → Bool) : dot (row >>> t) (i + t) column = dot row i column := by
  rw [dot_eq_sum row i t, add_comm r t, sum_range_add]
  have hzero : ∑ k ∈ range t, bit (row.getLsbD k) * bit (column (i + k)) = 0 := by
    refine sum_eq_zero fun k hk => ?_
    rw [hlow k (mem_range.1 hk), bit_false, zero_mul]
  rw [hzero, zero_add, dot]
  refine sum_congr rfl fun k _ => ?_
  rw [BitVec.getLsbD_ushiftRight, add_assoc]

/-- A row that does not begin at a multiple of its width is met in two parts. -/
lemma dot_split (row : BitVec r) {t : ℕ} (ht : t ≤ r) (i : ℕ) (column : ℕ → Bool) :
    dot (row <<< t) i column + dot (row >>> (r - t)) (i + r) column = dot row (i + t) column := by
  have hleft : dot (row <<< t) i column =
      ∑ k ∈ range (r - t), bit (row.getLsbD k) * bit (column (i + t + k)) := by
    have hr : range r = range (t + (r - t)) := by rw [Nat.add_sub_cancel' ht]
    rw [dot, hr, sum_range_add]
    have hzero : ∑ k ∈ range t, bit ((row <<< t).getLsbD k) * bit (column (i + k)) = 0 := by
      refine sum_eq_zero fun k hk => ?_
      rw [BitVec.getLsbD_shiftLeft]
      simp [mem_range.1 hk]
    rw [hzero, zero_add]
    refine sum_congr rfl fun k hk => ?_
    have hk' := mem_range.1 hk
    rw [BitVec.getLsbD_shiftLeft, add_assoc, show t + k - t = k by omega]
    have hlt : t + k < r := by omega
    simp [hlt]
  have hright : dot (row >>> (r - t)) (i + r) column =
      ∑ k ∈ range t, bit (row.getLsbD (r - t + k)) * bit (column (i + t + (r - t + k))) := by
    have hr : range r = range (t + (r - t)) := by rw [Nat.add_sub_cancel' ht]
    rw [dot, hr, sum_range_add]
    have hzero : ∑ k ∈ range (r - t), bit ((row >>> (r - t)).getLsbD (t + k)) *
        bit (column (i + r + (t + k))) = 0 := by
      refine sum_eq_zero fun k _ => ?_
      rw [BitVec.getLsbD_ushiftRight, BitVec.getLsbD_of_ge _ _ (by omega), bit_false, zero_mul]
    rw [hzero, add_zero]
    refine sum_congr rfl fun k _ => ?_
    rw [BitVec.getLsbD_ushiftRight, show i + r + k = i + t + (r - t + k) by omega]
  have hr : range r = range ((r - t) + t) := by rw [Nat.sub_add_cancel ht]
  rw [hleft, hright, dot, hr, sum_range_add]

/-- Whether the number of bits that are set is odd. -/
def bitParity (x : BitVec r) : Bool := (List.range r).foldl (fun p k => p ^^ x.getLsbD k) false

lemma bit_foldl_xor (f : ℕ → Bool) (n : ℕ) :
    bit ((List.range n).foldl (fun p k => p ^^ f k) false) = ∑ k ∈ range n, bit (f k) := by
  induction n with
  | zero => rfl
  | succ n ih =>
    rw [List.range_succ, List.foldl_append, sum_range_succ, ← ih]
    exact bit_xor _ _

/-- The parity of the bits that a row selects. -/
lemma bit_bitParity_and (x row : BitVec r) :
    bit (bitParity (x &&& row)) = ∑ k ∈ range r, bit (x.getLsbD k) * bit (row.getLsbD k) := by
  rw [bitParity, bit_foldl_xor]
  refine sum_congr rfl fun k _ => ?_
  rw [BitVec.getLsbD_and, bit_and]

lemma bit_bitParity_xor (x y : BitVec r) :
    bit (bitParity (x ^^^ y)) = bit (bitParity x) + bit (bitParity y) := by
  simp only [bitParity, bit_foldl_xor, BitVec.getLsbD_xor, bit_xor, sum_add_distrib]

/-- A bit vector that shows a part of a column. -/
lemma bit_bitParity_window {x : BitVec r} {i : ℕ} {column : ℕ → Bool}
    (hx : ∀ k < r, x.getLsbD k = column (i + k)) (row : BitVec r) :
    bit (bitParity (x &&& row)) = dot row i column := by
  rw [bit_bitParity_and, dot]
  refine sum_congr rfl fun k hk => ?_
  rw [hx k (mem_range.1 hk), mul_comm]

/-- The place of the lowest bit that is set. -/
def countTrailingZeroBits (x : BitVec r) : ℕ :=
  ((List.range r).find? fun k => x.getLsbD k).getD r

lemma countTrailingZeroBits_spec {x : BitVec r} (hx : x ≠ 0) :
    countTrailingZeroBits x < r ∧ x.getLsbD (countTrailingZeroBits x) = true ∧
      ∀ k < countTrailingZeroBits x, x.getLsbD k = false := by
  cases hfind : (List.range r).find? fun k => x.getLsbD k with
  | none =>
    refine absurd (BitVec.eq_of_getLsbD_eq fun k hk => ?_) hx
    have hk' := List.find?_eq_none.1 hfind k (List.mem_range.2 hk)
    simpa using hk'
  | some k =>
    rw [countTrailingZeroBits, hfind, Option.getD_some]
    refine ⟨List.mem_range.1 (List.mem_of_find?_eq_some hfind), List.find?_some hfind, ?_⟩
    intro k' hk'
    obtain ⟨-, hbefore⟩ := List.find?_range_eq_some.1 hfind
    simpa using hbefore.2 k' hk'

end BucketLSM.Lib
