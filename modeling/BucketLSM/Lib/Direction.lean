import BucketLSM.Lib.Cursor
import Mathlib

/-!
# Cursors in both directions

A cursor that scans forward looks for first elements and one that scans backward for last elements.
What is said here of a direction holds for both, so that code which has one loop for both directions
needs one proof.
-/

namespace Cursor

variable {κ : Type*} [LinearOrder κ] {forward : Bool} {a b c : κ} {S T : Set κ} {o o' : Option κ}

/-- In a scan, `b` comes after `a`. -/
def Ahead (forward : Bool) (a b : κ) : Prop := if forward then a < b else b < a

instance (forward : Bool) (a b : κ) : Decidable (Ahead forward a b) :=
  inferInstanceAs (Decidable (if forward then a < b else b < a))

lemma Ahead.trans (h : Ahead forward a b) (h' : Ahead forward b c) : Ahead forward a c := by
  cases forward with
  | false => exact lt_trans h' h
  | true => exact lt_trans h h'

lemma Ahead.ne (h : Ahead forward a b) : a ≠ b := by
  cases forward with
  | false => exact ne_of_gt h
  | true => exact ne_of_lt h

lemma not_ahead_self : ¬ Ahead forward a a := fun h => h.ne rfl

lemma Ahead.not_ahead (h : Ahead forward a b) : ¬ Ahead forward b a :=
  fun h' => not_ahead_self (h.trans h')

lemma ahead_trichotomy (forward : Bool) (a b : κ) :
    Ahead forward a b ∨ a = b ∨ Ahead forward b a := by
  cases forward with
  | false =>
    rcases lt_trichotomy b a with h | h | h
    · exact .inl h
    · exact .inr (.inl h.symm)
    · exact .inr (.inr h)
  | true => exact lt_trichotomy a b

lemma ahead_flip : Ahead (!forward) a b ↔ Ahead forward b a := by
  cases forward <;> exact Iff.rfl

/-- The position a cursor takes when it looks for the next element of `S`. -/
def IsNext (forward : Bool) (S : Set κ) (o : Option κ) : Prop :=
  if forward then IsFirst S o else IsLast S o

lemma isNext_none : IsNext forward S none ↔ S = ∅ := by
  cases forward <;> exact Iff.rfl

lemma isNext_some : IsNext forward S (some a) ↔ a ∈ S ∧ ∀ x ∈ S, x ≠ a → Ahead forward a x := by
  cases forward with
  | false =>
    refine and_congr_right fun _ => ⟨fun h x hx hne => lt_of_le_of_ne (h hx) hne, fun h x hx => ?_⟩
    by_cases hne : x = a
    · exact hne.le
    · exact (h x hx hne).le
  | true =>
    refine and_congr_right fun _ => ⟨fun h x hx hne => lt_of_le_of_ne (h hx) (Ne.symm hne),
      fun h x hx => ?_⟩
    by_cases hne : x = a
    · exact hne.ge
    · exact (h x hx hne).le

lemma IsNext.unique (h : IsNext forward S o) (h' : IsNext forward S o') : o = o' := by
  cases forward with
  | false => exact IsLast.unique h h'
  | true => exact IsFirst.unique h h'

lemma IsNext.congr (h : IsNext forward S o) (heq : S = T) : IsNext forward T o := heq ▸ h

lemma IsNext.mem (h : IsNext forward S (some a)) : a ∈ S := (isNext_some.1 h).1

/-- The next element comes before or is any other one. -/
lemma IsNext.not_ahead (h : IsNext forward S (some a)) (hb : b ∈ S) : ¬ Ahead forward b a := by
  intro hba
  exact hba.not_ahead ((isNext_some.1 h).2 b hb hba.ne)

lemma IsNext.notMem_of_none (h : IsNext forward S none) : b ∉ S := by
  rw [isNext_none.1 h]
  exact Set.notMem_empty b

/-- Where the cursor is not before `c`, neither is any element it looks for. -/
lemma IsNext.not_ahead_of_mem (h : IsNext forward S o)
    (ho : ∀ x, o = some x → ¬ Ahead forward x c) (hb : b ∈ S) : ¬ Ahead forward b c := by
  intro hbc
  cases o with
  | none => exact h.notMem_of_none hb
  | some a =>
    rcases ahead_trichotomy forward a b with hab | rfl | hba
    · exact ho a rfl (hab.trans hbc)
    · exact ho a rfl hbc
    · exact h.not_ahead hb hba

/-- The best of two cursors is the next element of what both look for together. -/
lemma IsNext.of_cover {V : Set κ} (hS : IsNext forward S o) (hT : IsNext forward T o')
    (hV : ∀ x ∈ V, x ∈ S ∨ x ∈ T) (hc : c ∈ V) (ho : ∀ x, o = some x → ¬ Ahead forward x c)
    (ho' : ∀ x, o' = some x → ¬ Ahead forward x c) : IsNext forward V (some c) := by
  refine isNext_some.2 ⟨hc, fun x hx hne => ?_⟩
  have hnot : ¬ Ahead forward x c := by
    rcases hV x hx with h | h
    · exact hS.not_ahead_of_mem ho h
    · exact hT.not_ahead_of_mem ho' h
  rcases ahead_trichotomy forward c x with h | h | h
  · exact h
  · exact absurd h.symm hne
  · exact absurd h hnot

section Closed

variable {P Q : κ → Prop}

/-- A cursor that looks for keys with `P` also looks for fewer keys, if it is at one of them. -/
lemma IsNext.narrow (h : IsNext forward {k | k ∈ S ∧ P k} o) (hQP : ∀ k, Q k → P k)
    (ho : ∀ x, o = some x → Q x) : IsNext forward {k | k ∈ S ∧ Q k} o := by
  cases o with
  | none =>
    refine isNext_none.2 (Set.eq_empty_of_forall_notMem fun k hk => ?_)
    exact h.notMem_of_none ⟨hk.1, hQP k hk.2⟩
  | some a =>
    obtain ⟨ha, hnext⟩ := isNext_some.1 h
    exact isNext_some.2 ⟨⟨ha.1, ho a rfl⟩, fun x hx hne => hnext x ⟨hx.1, hQP x hx.2⟩ hne⟩

/-- A set of keys that holds all that come after its keys. -/
def Closed (forward : Bool) (P : κ → Prop) : Prop := ∀ a b, P a → Ahead forward a b → P b

lemma closed_ahead (c : κ) : Closed forward fun k => Ahead forward c k :=
  fun _ _ h h' => h.trans h'

lemma closed_not_ahead (c : κ) : Closed forward fun k => ¬ Ahead forward k c :=
  fun _ _ h h' hbc => h (h'.trans hbc)

lemma closed_true : Closed forward fun _ : κ => True := fun _ _ _ _ => trivial

lemma Closed.of_not_ahead (hP : Closed forward P) (ha : P a) (h : ¬ Ahead forward b a) : P b := by
  rcases ahead_trichotomy forward a b with hab | rfl | hba
  · exact hP a b ha hab
  · exact ha
  · exact absurd hba h

/-- A cursor that turns at `c` is on the last key that is not after `c`. The keys after its own are
those after `c`. -/
lemma IsNext.turn (h : IsNext (!forward) {k | k ∈ S ∧ ¬ Ahead (!forward) k c} (some a)) :
    {k | k ∈ S ∧ Ahead forward a k} = {k | k ∈ S ∧ Ahead forward c k} := by
  simp only [ahead_flip] at h
  have hac : ¬ Ahead forward c a := h.mem.2
  ext k
  refine and_congr_right fun hk => ⟨fun hak => ?_, fun hck => ?_⟩
  · by_contra hck
    exact h.not_ahead ⟨hk, hck⟩ (ahead_flip.2 hak)
  · rcases ahead_trichotomy forward a c with h' | rfl | h'
    · exact h'.trans hck
    · exact hck
    · exact absurd h' hac

lemma IsNext.turn_none (h : IsNext (!forward) {k | k ∈ S ∧ ¬ Ahead (!forward) k c} none) :
    S = {k | k ∈ S ∧ Ahead forward c k} := by
  simp only [ahead_flip] at h
  ext k
  refine ⟨fun hk => ⟨hk, ?_⟩, And.left⟩
  by_contra hck
  exact h.notMem_of_none ⟨hk, hck⟩

end Closed

/-- The first element of a list in a direction that is wanted. -/
def scan (forward : Bool) (wanted : κ → Bool) (l : List κ) : Option κ :=
  if forward then l.find? wanted else l.reverse.find? wanted

/-- In a strictly increasing list, `scan` finds the next element it looks for. -/
lemma scan_isNext {l : List κ} (hl : l.Pairwise (· < ·)) (forward : Bool) (wanted : κ → Bool) :
    IsNext forward {k | k ∈ l ∧ wanted k} (scan forward wanted l) := by
  cases forward with
  | false => exact find?_reverse_isLast hl wanted
  | true => exact find?_isFirst hl wanted

end Cursor
