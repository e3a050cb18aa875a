import Mathlib

/-!
# Relations without cycles

A relation that gains edges from one vertex stays free of cycles when a set that holds the new
neighbours, and is closed under the relation, does not hold the vertex itself.
-/

namespace BucketLSM.Lib

open Relation

variable {V : Type} {r r' : V → V → Prop} {u v w : V}

/-- No vertex can be reached from itself. -/
def Acyclic (r : V → V → Prop) : Prop := ∀ v, ¬ TransGen r v v

theorem Acyclic.mono (h : Acyclic r) (hle : ∀ v w, r' v w → r v w) : Acyclic r' :=
  fun v hv => h v (TransGen.mono hle v v hv)

/-- A chain of edges has no vertex twice. -/
theorem Acyclic.nodup (h : Acyclic r) {path : List V} (hpath : path.IsChain r) : path.Nodup := by
  have hpairs : path.Pairwise (TransGen r) :=
    List.isChain_iff_pairwise.1 (hpath.imp fun _ _ => TransGen.single)
  refine hpairs.imp ?_
  rintro v _ hv rfl
  exact h v hv

/-- A path uses only old edges, or it goes through the vertex with the new ones. -/
theorem transGen_or_through (hold : ∀ v w, v ≠ u → r' v w → r v w) (h : TransGen r' v w) :
    TransGen r v w ∨ ReflTransGen r' v u ∧ TransGen r' u w := by
  induction h with
  | single hvw =>
    by_cases hv : v = u
    · subst hv
      exact .inr ⟨.refl, .single hvw⟩
    · exact .inl (.single (hold _ _ hv hvw))
  | tail hvb hbc ih =>
    rename_i b c
    rcases ih with ih | ⟨hvu, hub⟩
    · by_cases hb : b = u
      · subst hb
        exact .inr ⟨hvb.to_reflTransGen, .single hbc⟩
      · exact .inl (ih.tail (hold _ _ hb hbc))
    · exact .inr ⟨hvu, hub.tail hbc⟩

/-- What can be reached from a vertex is in a closed set that holds its neighbours. -/
theorem mem_of_transGen {S : Set V} (hnew : ∀ w, r' u w → w ∈ S)
    (hclosed : ∀ v w, v ∈ S → r' v w → w ∈ S) (h : TransGen r' u w) : w ∈ S := by
  induction h with
  | single huw => exact hnew _ huw
  | tail _ hbc ih => exact hclosed _ _ ih hbc

/-- **New edges from one vertex.** -/
theorem Acyclic.extend (h : Acyclic r) (hold : ∀ v w, v ≠ u → r' v w → r v w) {S : Set V}
    (hnew : ∀ w, r' u w → w ∈ S) (hclosed : ∀ v w, v ∈ S → r' v w → w ∈ S) (hu : u ∉ S) :
    Acyclic r' := by
  intro v hv
  rcases transGen_or_through hold hv with hv | ⟨hvu, huv⟩
  · exact h v hv
  · exact hu (mem_of_transGen hnew hclosed (huv.trans_left hvu))

end BucketLSM.Lib
