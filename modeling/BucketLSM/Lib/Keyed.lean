import Mathlib

/-!
# Lists with distinct keys

A hash map is kept as the list of its entries. An entry is found by its key, and to erase a key
takes one entry away.
-/

namespace Keyed

open List

variable {α κ : Type} [DecidableEq κ] {key : α → κ} {l : List α} {a : α} {k k' : κ}

lemma find?_eq_none : l.find? (fun b => key b = k) = none ↔ k ∉ l.map key := by
  simp

lemma find?_eq_some (nodup : (l.map key).Nodup) :
    l.find? (fun b => key b = k) = some a ↔ a ∈ l ∧ key a = k := by
  constructor
  · intro h
    exact ⟨mem_of_find?_eq_some h, by simpa using find?_some h⟩
  · rintro ⟨hmem, rfl⟩
    cases hfind : l.find? fun b => key b = key a with
    | none => exact absurd (mem_map_of_mem hmem) (find?_eq_none.1 hfind)
    | some b =>
      have hkey : key b = key a := by simpa using find?_some hfind
      rw [inj_on_of_nodup_map nodup (mem_of_find?_eq_some hfind) hmem hkey]

lemma filter_ne (h : k ∉ l.map key) : l.filter (fun b => key b ≠ k) = l := by
  simpa [filter_eq_self] using h

lemma find?_filter_ne : (l.filter fun b => key b ≠ k).find? (fun b => key b = k') =
    if k' = k then none else l.find? fun b => key b = k' := by
  rw [find?_filter]
  split_ifs with hk
  · simp [hk]
  · congr 1
    funext b
    by_cases hb : key b = k' <;> simp [hb, hk]

lemma perm_filter_ne (nodup : (l.map key).Nodup) (h : a ∈ l) :
    l ~ a :: l.filter fun b => key b ≠ key a := by
  induction l with
  | nil => cases h
  | cons b l ih =>
    rw [map_cons, nodup_cons] at nodup
    rcases mem_cons.1 h with rfl | hmem
    · rw [filter_cons_of_neg (by simp), filter_ne nodup.1]
    · have hne : key b ≠ key a := fun heq => nodup.1 (heq ▸ mem_map_of_mem hmem)
      rw [filter_cons_of_pos (by simpa using hne)]
      exact ((ih nodup.2 hmem).cons b).trans (.swap a b _)

/-- A change that keeps the key of an entry. -/
lemma map_key_modify {f : α → α} (hf : ∀ b, key b = k → key (f b) = key b) :
    (l.map fun b => if key b = k then f b else b).map key = l.map key := by
  rw [map_map]
  refine map_congr_left fun b _ => ?_
  simp only [Function.comp_apply]
  split_ifs with hb
  · exact hf b hb
  · rfl

end Keyed
