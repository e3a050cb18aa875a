import Mathlib

/-!
# Little-endian numbers

A number of `w` bytes, least significant byte first. Encoding keeps the number modulo
`256 ^ w`, as a cast to a machine word of `w` bytes does.
-/

namespace BucketLSM.Lib.LittleEndian

/-- The `w` low bytes of `n`. -/
def encode : ℕ → ℕ → List (Fin 256)
  | 0, _ => []
  | w + 1, n => ⟨n % 256, Nat.mod_lt n (by decide)⟩ :: encode w (n / 256)

/-- The number the bytes stand for. -/
def decode : List (Fin 256) → ℕ
  | [] => 0
  | b :: bs => b.val + 256 * decode bs

@[simp]
theorem length_encode (w n : ℕ) : (encode w n).length = w := by
  induction w generalizing n with
  | zero => rfl
  | succ w ih => simp [encode, ih]

theorem decode_encode (w n : ℕ) : decode (encode w n) = n % 256 ^ w := by
  induction w generalizing n with
  | zero => simp [encode, decode, Nat.mod_one]
  | succ w ih =>
    have hsplit : n % 256 ^ (w + 1) = n % 256 + 256 * (n / 256 % 256 ^ w) := by
      rw [pow_succ', Nat.mod_mul]
    simp [encode, decode, ih, hsplit]

end BucketLSM.Lib.LittleEndian
