import Mathlib

/-!
# Loops with exits

A `while` or `for (;;)` loop is given by its body: from a state the body either goes on with
the next state or leaves the loop with a result. `Loop.run` bounds the number of rounds,
`Loop.Returns` says that the loop leaves, and `Loop.Reaches` lists the states its rounds
start from. A loop returns when some number falls in every round that goes on
(`exists_returns`), and never does when some set of states keeps it going
(`not_exists_returns`).
-/

namespace BucketLSM.Lib

/-- What one round of a loop does. -/
inductive Round (σ ρ : Type*)
  | next (s : σ)
  | leave (r : ρ)

namespace Loop

variable {σ ρ : Type*} {body : σ → Round σ ρ} {s t u : σ} {r : ρ}

/-- At most `fuel` rounds. -/
def run (body : σ → Round σ ρ) : ℕ → σ → Option ρ
  | 0, _ => none
  | fuel + 1, s =>
    match body s with
    | .next t => run body fuel t
    | .leave r => some r

/-- The loop leaves with `r`. -/
inductive Returns (body : σ → Round σ ρ) : σ → ρ → Prop
  | leave {s : σ} {r : ρ} (h : body s = .leave r) : Returns body s r
  | next {s t : σ} {r : ρ} (h : body s = .next t) (rest : Returns body t r) : Returns body s r

/-- A round of the loop starts from `t`. -/
inductive Reaches (body : σ → Round σ ρ) : σ → σ → Prop
  | refl (s : σ) : Reaches body s s
  | next {s t u : σ} (h : body s = .next t) (rest : Reaches body t u) : Reaches body s u

theorem returns_of_run {fuel : ℕ} (h : run body fuel s = some r) : Returns body s r := by
  induction fuel generalizing s with
  | zero => exact absurd h (by simp [run])
  | succ fuel ih =>
    unfold run at h
    cases hb : body s with
    | next t =>
      rw [hb] at h
      exact .next hb (ih h)
    | leave r' =>
      rw [hb] at h
      cases h
      exact .leave hb

theorem Returns.unique {r' : ρ} (h : Returns body s r) (h' : Returns body s r') : r = r' := by
  induction h with
  | leave h =>
    cases h' with
    | leave h₁ =>
      rw [h] at h₁
      cases h₁
      rfl
    | next h₁ _ => exact absurd (h.symm.trans h₁) (by simp)
  | next h _ ih =>
    cases h' with
    | leave h₁ => exact absurd (h.symm.trans h₁) (by simp)
    | next h₁ rest =>
      rw [h] at h₁
      cases h₁
      exact ih rest

theorem returns_next (h : body s = .next t) : Returns body s r ↔ Returns body t r := by
  constructor
  · intro hr
    cases hr with
    | leave h₁ => exact absurd (h.symm.trans h₁) (by simp)
    | next h₁ rest =>
      rw [h] at h₁
      cases h₁
      exact rest
  · intro hr
    exact .next h hr

theorem Reaches.trans (h : Reaches body s t) (h' : Reaches body t u) : Reaches body s u := by
  induction h with
  | refl => exact h'
  | next h _ ih => exact .next h (ih h')

theorem Reaches.single (h : body s = .next t) : Reaches body s t :=
  .next h (.refl t)

theorem Reaches.returns (h : Reaches body s t) : Returns body s r ↔ Returns body t r := by
  induction h with
  | refl => exact Iff.rfl
  | next h _ ih => exact (returns_next h).trans ih

/-- A loop whose measure falls in every round that goes on returns. The rounds are those it
really makes, so a side condition on the states reached may be used. -/
theorem exists_returns (μ : σ → ℕ)
    (falls : ∀ t u, Reaches body s t → body t = .next u → μ u < μ t) : ∃ r, Returns body s r := by
  induction hn : μ s using Nat.strong_induction_on generalizing s with
  | _ n ih =>
    cases hb : body s with
    | leave r => exact ⟨r, .leave hb⟩
    | next t =>
      have hlt : μ t < n := hn ▸ falls s t (.refl s) hb
      obtain ⟨r, hr⟩ := ih (μ t) hlt (fun u v hu hv => falls u v (.next hb hu) hv) rfl
      exact ⟨r, .next hb hr⟩

/-- The same with the number of rounds: one more than the measure is enough. -/
theorem run_isSome (μ : σ → ℕ) (falls : ∀ t u, body t = .next u → μ u < μ t) {fuel : ℕ}
    (hf : μ s < fuel) : (run body fuel s).isSome := by
  induction fuel generalizing s with
  | zero => exact absurd hf (by omega)
  | succ fuel ih =>
    unfold run
    cases hb : body s with
    | leave r => rfl
    | next t =>
      have hlt := falls s t hb
      exact ih (by omega)

/-- A loop that some set of states keeps going never returns. -/
theorem not_exists_returns {inv : σ → Prop} (keeps : ∀ t, inv t → ∃ u, body t = .next u ∧ inv u)
    (hs : inv s) : ¬ ∃ r, Returns body s r := by
  rintro ⟨r, hr⟩
  induction hr with
  | leave h =>
    obtain ⟨u, hu, _⟩ := keeps _ hs
    exact absurd (h.symm.trans hu) (by simp)
  | next h _ ih =>
    obtain ⟨u, hu, hiu⟩ := keeps _ hs
    rw [h] at hu
    cases hu
    exact ih hiu

/-- When the measure falls in every round that goes on from outside some set of states, and
that set keeps the loop going, the loop returns exactly when it does not get there. -/
theorem exists_returns_iff (μ : σ → ℕ) (stuck : σ → Prop)
    (falls : ∀ t u, ¬ stuck t → body t = .next u → μ u < μ t)
    (keeps : ∀ t, stuck t → ∃ u, body t = .next u ∧ stuck u) :
    (∃ r, Returns body s r) ↔ ∀ t, Reaches body s t → ¬ stuck t := by
  constructor
  · intro hreturn t ht hstuck
    obtain ⟨r, hr⟩ := hreturn
    exact not_exists_returns keeps hstuck ⟨r, ht.returns.1 hr⟩
  · intro hfree
    exact exists_returns μ fun t u ht hu => falls t u (hfree t ht) hu

end Loop

end BucketLSM.Lib
