import Mathlib

/-!
# Bisection

`std::lower_bound` and `std::upper_bound` halve a range of positions until it is empty. They differ
in the test at the middle only, so both are `bisect` with the test that sends the search to the
left. For a test that stays true once it is true, the position found divides the range
(`bisect_spec`).
-/

namespace BucketLSM.Lib

/-- The search for the first of `len` positions from `first` on where `stop` holds. -/
def bisect (stop : ℕ → Bool) (first len : ℕ) : ℕ :=
  if len = 0 then first
  else if stop (first + len / 2) then bisect stop first (len / 2)
  else bisect stop (first + len / 2 + 1) (len - len / 2 - 1)
termination_by len

/-- `stop` fails before the position found and holds from it on. -/
theorem bisect_spec {stop : ℕ → Bool} {first len : ℕ}
    (hstop : ∀ i j, first ≤ i → i ≤ j → j < first + len → stop i → stop j) :
    first ≤ bisect stop first len ∧ bisect stop first len ≤ first + len ∧
      (∀ i, first ≤ i → i < bisect stop first len → ¬ stop i) ∧
      ∀ i, bisect stop first len ≤ i → i < first + len → stop i := by
  induction len using Nat.strong_induction_on generalizing first with
  | _ len ih =>
    rw [bisect]
    by_cases hlen : len = 0
    · rw [if_pos hlen]
      exact ⟨le_rfl, by omega, fun i _ _ => by omega, fun i _ _ => by omega⟩
    rw [if_neg hlen]
    by_cases hmid : stop (first + len / 2)
    · rw [if_pos hmid]
      have hstop' : ∀ i j, first ≤ i → i ≤ j → j < first + len / 2 → stop i → stop j :=
        fun i j hi hij hj => hstop i j hi hij (by omega)
      obtain ⟨hlo, hhi, hleft, hright⟩ := ih (len / 2) (by omega) hstop'
      refine ⟨hlo, by omega, hleft, fun i hi hlt => ?_⟩
      by_cases hside : i < first + len / 2
      · exact hright i hi hside
      · exact hstop (first + len / 2) i (by omega) (by omega) hlt hmid
    · rw [if_neg hmid]
      have hstop' : ∀ i j, first + len / 2 + 1 ≤ i → i ≤ j →
          j < first + len / 2 + 1 + (len - len / 2 - 1) → stop i → stop j :=
        fun i j hi hij hj => hstop i j (by omega) hij (by omega)
      obtain ⟨hlo, hhi, hleft, hright⟩ := ih (len - len / 2 - 1) (by omega) hstop'
      refine ⟨by omega, by omega, fun i hi hlt => ?_, fun i hi hlt => hright i hi (by omega)⟩
      by_cases hside : first + len / 2 + 1 ≤ i
      · exact hleft i hside hlt
      · exact fun hi' => hmid (hstop i (first + len / 2) hi (by omega) (by omega) hi')

end BucketLSM.Lib
