import Mathlib

/-!
# Unique ids of table files

The public id of a file is a hash of its internal id. Every step of `BijectiveHash2x64`
(`util/hash.cc`) can be undone: a xor-shift by half a word or more is its own inverse, the factors
are odd, and what a half adds to the other is computed again from the half that is already known.
So the two ids of a file determine each other (`uniqueIds_inverse`).
-/

namespace BucketLSM.UniqueId

open BitVec

abbrev U64 := BitVec 64

/-! ## The hash -/

def multiply64to128 (a b : U64) : BitVec 128 := a.setWidth 128 * b.setWidth 128

def lower64of128 (v : BitVec 128) : U64 := v.setWidth 64

def upper64of128 (v : BitVec 128) : U64 := (v >>> 64).setWidth 64

def lower32of64 (v : U64) : BitVec 32 := v.setWidth 32

/-- The bytes in the opposite order. -/
def endianSwapValue (v : U64) : U64 :=
  (List.range 8).foldl (fun ret i => ret ||| (v >>> (8 * i) &&& 0xff#64) <<< (8 * (7 - i))) 0

def xxh3Avalanche (h : U64) : U64 :=
  let h := h ^^^ h >>> 37
  let h := h * 0x165667919E3779F9#64
  h ^^^ h >>> 32

def xxh3Unavalanche (h : U64) : U64 :=
  let h := h ^^^ h >>> 32
  let h := h * 0x8da8ee41d6df849#64
  h ^^^ h >>> 37

/-- `BijectiveHash2x64`. The halves of the input and of the output are pairs, the high one first. -/
def bijectiveHash2x64 (seed : U64) (input : U64 × U64) : U64 × U64 :=
  let bitflipl := 0x59973f0033362349#64 - seed
  let bitfliph := 0xc202797692d63d58#64 + seed
  let tmp128 := multiply64to128 (input.2 ^^^ input.1 ^^^ bitflipl) 0x9E3779B185EBCA87#64
  let lo := lower64of128 tmp128
  let hi := upper64of128 tmp128
  let lo := lo + 0x3c0000000000000#64
  let inHigh64 := input.1 ^^^ bitfliph
  let hi := hi + (inHigh64 + (lower32of64 inHigh64).setWidth 64 * 0x85EBCA76#64)
  let lo := lo ^^^ endianSwapValue hi
  let tmp128 := multiply64to128 lo 0xC2B2AE3D27D4EB4F#64
  let lo := lower64of128 tmp128
  let hi := upper64of128 tmp128 + hi * 0xC2B2AE3D27D4EB4F#64
  (xxh3Avalanche hi, xxh3Avalanche lo)

/-- `BijectiveUnhash2x64`. -/
def bijectiveUnhash2x64 (seed : U64) (input : U64 × U64) : U64 × U64 :=
  let bitflipl := 0x59973f0033362349#64 - seed
  let bitfliph := 0xc202797692d63d58#64 + seed
  let lo := xxh3Unavalanche input.2
  let hi := xxh3Unavalanche input.1
  let lo := lo * 0xba79078168d4baf#64
  let hi := hi - upper64of128 (multiply64to128 lo 0xC2B2AE3D27D4EB4F#64)
  let hi := hi * 0xba79078168d4baf#64
  let lo := lo ^^^ endianSwapValue hi
  let lo := lo - 0x3c0000000000000#64
  let lo := lo * 0x887493432badb37#64
  let hi := hi - upper64of128 (multiply64to128 lo 0x9E3779B185EBCA87#64)
  let tmp32 := lower32of64 hi * 0xb6c92f47#32
  let hi := hi - tmp32.setWidth 64
  let hi := (hi &&& 0xFFFFFFFF00000000#64) -
    (tmp32.setWidth 64 * 0x85EBCA76#64 &&& 0xFFFFFFFF00000000#64) + tmp32.setWidth 64
  let hi := hi ^^^ bitfliph
  (hi, lo ^^^ (hi ^^^ bitflipl))

/-! ## The ids -/

/-- What a `UniqueIdPtr` points to. The last word is there iff the id is extended. -/
@[ext]
structure Id where
  low : U64
  high : U64
  extra : Option (U64)

def kHiOffsetForZero : U64 := 17391078804906429400

def kLoOffsetForZero : U64 := 6417269962128484497

def internalUniqueIdToExternal (id : Id) : Id :=
  let out := bijectiveHash2x64 0 (id.high + kHiOffsetForZero, id.low + kLoOffsetForZero)
  ⟨out.2, out.1, id.extra.map (· + (out.2 + out.1))⟩

def externalUniqueIdToInternal (id : Id) : Id :=
  let out := bijectiveUnhash2x64 0 (id.high, id.low)
  ⟨out.2 - kLoOffsetForZero, out.1 - kHiOffsetForZero, id.extra.map (· - (id.low + id.high))⟩

/-! ## Undoing the steps -/

variable (v w : U64)

lemma xor_shift_xor_shift {k : ℕ} (hk : 32 ≤ k) : v ^^^ v >>> k ^^^ (v ^^^ v >>> k) >>> k = v := by
  have hzero : v >>> (k + k) = 0#64 := ushiftRight_eq_zero (by omega)
  rw [ushiftRight_xor_distrib, ← shiftRight_add, hzero, BitVec.xor_zero, BitVec.xor_assoc,
    BitVec.xor_self, BitVec.xor_zero]

lemma mul_mul_inverse {n : ℕ} {a b : BitVec n} (u : BitVec n) (hab : a * b = 1#n) :
    u * a * b = u := by
  rw [BitVec.mul_assoc, hab, BitVec.mul_one]

lemma xxh3Unavalanche_xxh3Avalanche : xxh3Unavalanche (xxh3Avalanche v) = v := by
  simp only [xxh3Unavalanche, xxh3Avalanche]
  rw [xor_shift_xor_shift _ (by omega), mul_mul_inverse _ (by decide),
    xor_shift_xor_shift _ (by omega)]

lemma lower64of128_multiply64to128 : lower64of128 (multiply64to128 v w) = v * w := by
  apply eq_of_toNat_eq
  simp [lower64of128, multiply64to128]

lemma toNat_and_high : (v &&& 0xFFFFFFFF00000000#64).toNat = v.toNat / 2 ^ 32 * 2 ^ 32 := by
  have hmask : 0xFFFFFFFF00000000#64 = allOnes 64 <<< 32 := by decide
  have hshift : v &&& allOnes 64 <<< 32 = v >>> 32 <<< 32 := by
    ext i hi
    simp only [getElem_and, getElem_shiftLeft, getElem_ushiftRight, getElem_allOnes]
    by_cases hlt : i < 32
    · simp only [hlt, decide_true, Bool.not_true, Bool.false_and, Bool.and_false]
    · rw [Nat.add_sub_cancel' (not_lt.1 hlt), getLsbD_eq_getElem hi, Bool.and_true, Bool.and_comm]
  rw [hmask, hshift, toNat_shiftLeft, toNat_ushiftRight]
  have hlt := v.isLt
  omega

/-- The low half of the word is found from the low half of the sum, an odd multiple of it. -/
lemma lower32of64_add_mul :
    lower32of64 (v + (lower32of64 v).setWidth 64 * 0x85EBCA76#64) * 0xb6c92f47#32 =
      lower32of64 v := by
  have hodd : 0x85EBCA77#32 = 1#32 + 0x85EBCA76#32 := by decide
  have hmul : lower32of64 (v + (lower32of64 v).setWidth 64 * 0x85EBCA76#64) =
      lower32of64 v * 0x85EBCA77#32 := by
    rw [hodd, BitVec.mul_add, BitVec.mul_one, lower32of64, setWidth_add _ _ (by decide),
      setWidth_mul _ _ (by decide)]
    simp [lower32of64]
  rw [hmul, mul_mul_inverse _ (by decide)]

/-- Then the high half is found, as what is added to it is known. -/
lemma and_high_sub_add : ((v + w - (lower32of64 v).setWidth 64) &&& 0xFFFFFFFF00000000#64) -
      (w &&& 0xFFFFFFFF00000000#64) + (lower32of64 v).setWidth 64 = v := by
  apply eq_of_toNat_eq
  have hv := v.isLt
  have hw := w.isLt
  simp only [lower32of64, toNat_setWidth, toNat_add, toNat_sub, toNat_and_high]
  omega

lemma xor_xor_cancel : v ^^^ w ^^^ w = v := by
  rw [BitVec.xor_assoc, BitVec.xor_self, BitVec.xor_zero]

lemma xor_xor_xor_cancel (u : U64) : v ^^^ w ^^^ u ^^^ (w ^^^ u) = v := by
  rw [BitVec.xor_assoc v, xor_xor_cancel]

lemma leftInverse_bijectiveUnhash2x64 (seed : U64) :
    Function.LeftInverse (bijectiveUnhash2x64 seed) (bijectiveHash2x64 seed) := by
  intro input
  have hfirst (u : U64) : u * 0x9E3779B185EBCA87#64 * 0x887493432badb37#64 = u :=
    mul_mul_inverse u (by decide)
  have hsecond (u : U64) : u * 0xC2B2AE3D27D4EB4F#64 * 0xba79078168d4baf#64 = u :=
    mul_mul_inverse u (by decide)
  simp only [bijectiveUnhash2x64, bijectiveHash2x64, xxh3Unavalanche_xxh3Avalanche,
    lower64of128_multiply64to128, hfirst, hsecond, add_sub_cancel_left, add_sub_cancel_right,
    xor_xor_cancel, lower32of64_add_mul, and_high_sub_add, xor_xor_xor_cancel]

/-- On the pairs of words, a finite type, the inverse on one side is one on both. -/
lemma rightInverse_bijectiveUnhash2x64 (seed : U64) :
    Function.RightInverse (bijectiveUnhash2x64 seed) (bijectiveHash2x64 seed) :=
  (leftInverse_bijectiveUnhash2x64 seed).rightInverse_of_surjective
    (Finite.injective_iff_surjective.1 (leftInverse_bijectiveUnhash2x64 seed).injective)

/-- The hash and the ids can be turned back in both directions. -/
theorem uniqueIds_inverse :
    (∀ seed, Function.LeftInverse (bijectiveUnhash2x64 seed) (bijectiveHash2x64 seed) ∧
      Function.RightInverse (bijectiveUnhash2x64 seed) (bijectiveHash2x64 seed)) ∧
    Function.LeftInverse externalUniqueIdToInternal internalUniqueIdToExternal ∧
    Function.RightInverse externalUniqueIdToInternal internalUniqueIdToExternal := by
  refine ⟨fun seed => ⟨leftInverse_bijectiveUnhash2x64 seed,
    rightInverse_bijectiveUnhash2x64 seed⟩, fun id => ?_, fun id => ?_⟩
  · simp only [externalUniqueIdToInternal, internalUniqueIdToExternal, Prod.mk.eta,
      leftInverse_bijectiveUnhash2x64 0 _, add_sub_cancel_right, Option.map_map,
      Function.comp_def, Option.map_id']
  · simp only [externalUniqueIdToInternal, internalUniqueIdToExternal, sub_add_cancel,
      Prod.mk.eta, rightInverse_bijectiveUnhash2x64 0 _, Option.map_map, Function.comp_def,
      Option.map_id']

end BucketLSM.UniqueId
