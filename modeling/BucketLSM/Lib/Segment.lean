import Mathlib

/-!
# Segments of linked lists

The memory of a linked list is a function from a cell to the cell its link points to. A segment is
the list of the cells that are passed from one link to another.
-/

namespace BucketLSM.Lib

variable {V : Type} {next next' : V → Option V} {o p : Option V} {l l' : List V}

/-- From the link `o`, the links lead through the cells of the list to the link `p`. -/
def Segment (next : V → Option V) : Option V → List V → Option V → Prop
  | o, [], p => o = p
  | o, v :: l, p => o = some v ∧ Segment next (next v) l p

@[simp] theorem segment_nil : Segment next o [] p ↔ o = p := Iff.rfl

variable {v : V}

@[simp] theorem segment_cons :
    Segment next o (v :: l) p ↔ o = some v ∧ Segment next (next v) l p := Iff.rfl

theorem segment_append :
    Segment next o (l ++ l') p ↔ ∃ m, Segment next o l m ∧ Segment next m l' p := by
  induction l generalizing o with
  | nil => simp
  | cons v l ih => simp [ih, and_assoc]

/-- The links of other cells do not matter. -/
theorem Segment.congr (h : Segment next o l p) (heq : ∀ v ∈ l, next' v = next v) :
    Segment next' o l p := by
  induction l generalizing o with
  | nil => exact h
  | cons v l ih =>
    refine ⟨h.1, ?_⟩
    rw [heq v List.mem_cons_self]
    exact ih h.2 fun u hu => heq u (List.mem_cons_of_mem v hu)

theorem Segment.update [DecidableEq V] (h : Segment next o l p) (hv : v ∉ l) (q : Option V) :
    Segment (Function.update next v q) o l p :=
  h.congr fun _ hu => Function.update_of_ne (ne_of_mem_of_not_mem hu hv) _ _

/-- A segment that ends nowhere begins with its first cell. -/
theorem Segment.head (h : Segment next o l none) : o = l.head? := by
  cases l with
  | nil => exact h
  | cons v l => exact h.1

/-- The last link of a segment is changed. -/
theorem Segment.retarget [DecidableEq V] (h : Segment next o (l ++ [v]) p) (hv : v ∉ l)
    (q : Option V) : Segment (Function.update next v q) o (l ++ [v]) q := by
  obtain ⟨m, hl, hm, -⟩ := segment_append.1 h
  exact segment_append.2 ⟨m, hl.update hv q, hm, by simp⟩

theorem Segment.isChain (h : Segment next o l p) : l.IsChain fun a b => next a = some b := by
  induction l generalizing o with
  | nil => exact List.isChain_nil
  | cons v l ih =>
    cases l with
    | nil => exact List.isChain_singleton v
    | cons u l => exact List.isChain_cons_cons.2 ⟨h.2.1, ih h.2⟩

theorem segment_of_isChain (h : (v :: l).IsChain fun a b => next a = some b)
    (hlast : next ((v :: l).getLast (List.cons_ne_nil v l)) = p) : Segment next (next v) l p := by
  induction l generalizing v with
  | nil => exact hlast
  | cons u l ih =>
    rw [List.isChain_cons_cons] at h
    exact ⟨h.1, ih h.2 hlast⟩

end BucketLSM.Lib
