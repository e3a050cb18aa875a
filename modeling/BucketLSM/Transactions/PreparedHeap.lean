import Mathlib

/-!
# The heap of prepared sequence numbers

`PreparedHeap` keeps the sequence numbers of prepared transactions. A value that is erased
below the top is remembered in a second heap and cancelled when a pop reaches it.
-/

namespace BucketLSM

open List Finset

/-- `PreparedHeap` over the sequence numbers `S`, of which `kMaxSequenceNumber` is the greatest.
The priority queue is the list of its values, least first. -/
structure PreparedHeap (S : Type) [LinearOrder S] [OrderTop S] where
  heap : List S := []
  erasedHeap : List S := []
  heapTop : S := ⊤

namespace PreparedHeap

variable {S : Type} [LinearOrder S] [OrderTop S]

/-- The first loop of `pop`. An erased value below the front matches nothing. -/
def cancel : List S → List S → List S × List S
  | x :: heap, e :: erased =>
    if e ≤ x then cancel (if x = e then heap else x :: heap) erased
    else (x :: heap, e :: erased)
  | heap, erased => (heap, erased)

variable (h : PreparedHeap S)

/-- `push`. -/
def push (v : S) : PreparedHeap S :=
  { h with
    heapTop := if h.heap = [] then v else h.heapTop
    heap := h.heap ++ [v] }

/-- `pop`. The second loop drops the erased values of an empty heap. -/
def pop : PreparedHeap S :=
  let r := cancel h.heap.tail h.erasedHeap
  { heap := r.1
    erasedHeap := if r.1 = [] then [] else r.2
    heapTop := r.1.head?.getD ⊤ }

/-- `erase`. -/
def erase (seq : S) : PreparedHeap S :=
  if h.heapTop = ⊤ then h
  else if seq < h.heapTop then h
  else if h.heapTop = seq then h.pop
  else { h with erasedHeap := h.erasedHeap.orderedInsert (· ≤ ·) seq }

/-- What a sequence of operations leads to, with the values pushed and those of them that
have been neither popped nor erased. -/
inductive Reached : PreparedHeap S → Finset S → Finset S → Prop
  | init : Reached {} ∅ ∅
  | push {h pushed live v} : Reached h pushed live → (∀ u ∈ pushed, u < v) →
      Reached (h.push v) (insert v pushed) (insert v live)
  | pop {h pushed live} : Reached h pushed live → live.Nonempty →
      Reached h.pop pushed (live.erase h.heapTop)
  | erase {h pushed live seq} : Reached h pushed live → seq ∈ pushed →
      Reached (h.erase seq) pushed (live.erase seq)

/-- The values still to come are those of the heap that are not remembered as erased. The
greatest sequence number, which `top` also answers for an empty heap, may stay in the heap
when it is erased. -/
structure Inv (pushed live : Finset S) : Prop where
  sorted : h.heap.Pairwise (· < ·)
  erasedSorted : h.erasedHeap.Pairwise (· ≤ ·)
  known : ∀ v, v ∈ h.heap ∨ v ∈ h.erasedHeap → v ∈ pushed
  below : ∀ e ∈ h.erasedHeap, ∃ x ∈ h.heap, x < e
  top : h.heapTop = h.heap.head?.getD ⊤
  stored : ∀ v ∈ live, v ∈ h.heap ∧ v ∉ h.erasedHeap
  kept : ∀ v ∈ h.heap, v ∉ h.erasedHeap → v = ⊤ ∨ v ∈ live

omit [OrderTop S] in
lemma cancel_spec {heap erased : List S} (hheap : heap.Pairwise (· < ·))
    (herased : erased.Pairwise (· ≤ ·)) :
    (cancel heap erased).1 <:+ heap ∧ (cancel heap erased).2 <:+ erased ∧
      ((cancel heap erased).1 ≠ [] →
        ∀ e ∈ (cancel heap erased).2, ∃ x ∈ (cancel heap erased).1, x < e) ∧
      ∀ v, v ∈ (cancel heap erased).1 ∧ v ∉ (cancel heap erased).2 ↔ v ∈ heap ∧ v ∉ erased := by
  fun_induction cancel heap erased with
  | case1 x heap e erased hle ih =>
    obtain ⟨hx, htail⟩ := pairwise_cons.1 hheap
    obtain ⟨he, herased'⟩ := pairwise_cons.1 herased
    have hsub : (if x = e then heap else x :: heap) <:+ x :: heap := by
      split_ifs
      · exact suffix_cons _ _
      · exact suffix_rfl
    obtain ⟨h1, h2, h3, h4⟩ := ih (hheap.sublist hsub.sublist) herased'
    refine ⟨h1.trans hsub, h2.trans (suffix_cons _ _), h3, fun v => (h4 v).trans ?_⟩
    split_ifs with hxe
    · have := fun hv => (hx v hv).ne'
      grind
    · have := fun hv => (hx v hv)
      grind
  | case2 x heap e erased hle =>
    obtain ⟨he, -⟩ := pairwise_cons.1 herased
    refine ⟨suffix_rfl, suffix_rfl, fun _ e' he' => ⟨x, by simp, ?_⟩, fun v => Iff.rfl⟩
    grind
  | case3 heap erased hcases =>
    refine ⟨suffix_rfl, suffix_rfl, fun hne e he => ?_, fun v => Iff.rfl⟩
    obtain ⟨x, heap', rfl⟩ := exists_cons_of_ne_nil hne
    obtain ⟨e', erased', rfl⟩ := exists_cons_of_ne_nil (ne_nil_of_mem he)
    exact (hcases _ _ _ _ rfl rfl).elim

variable {h} {pushed live : Finset S}

section

variable (inv : h.Inv pushed live)

include inv

lemma Inv.push {v : S} (hv : ∀ u ∈ pushed, u < v) :
    (h.push v).Inv (insert v pushed) (insert v live) := by
  have hnew : v ∉ h.erasedHeap := fun hmem => (hv v (inv.known v (Or.inr hmem))).false
  have hlt : ∀ x ∈ h.heap, x < v := fun x hx => hv x (inv.known x (Or.inl hx))
  constructor
  · exact List.pairwise_append.2 ⟨inv.sorted, List.pairwise_singleton _ _, by simpa using hlt⟩
  · exact inv.erasedSorted
  · have := inv.known
    grind [PreparedHeap.push]
  · have := inv.below
    grind [PreparedHeap.push]
  · have := inv.top
    cases hheap : h.heap <;> simp_all [PreparedHeap.push]
  · have := inv.stored
    grind [PreparedHeap.push]
  · have := inv.kept
    grind [PreparedHeap.push]

lemma Inv.pop {x : S} {heap : List S}
    (hheap : h.heap = x :: heap) : h.pop.Inv pushed (live.erase x) := by
  have hsorted := inv.sorted
  rw [hheap] at hsorted
  obtain ⟨hx, htail⟩ := pairwise_cons.1 hsorted
  obtain ⟨hsub, hsubErased, hfront, hmem⟩ := cancel_spec htail inv.erasedSorted
  unfold PreparedHeap.pop
  rw [hheap, tail_cons]
  constructor
  · exact htail.sublist hsub.sublist
  · dsimp only
    split_ifs
    · exact Pairwise.nil
    · exact inv.erasedSorted.sublist hsubErased.sublist
  · have := inv.known
    grind
  · dsimp only
    split_ifs with hnil
    · simp
    · exact hfront hnil
  · rfl
  · intro v hv
    obtain ⟨hne, hv⟩ := mem_erase.1 hv
    have := inv.stored v hv
    grind
  · intro v hv hnot
    have := inv.kept v
    grind

/-- The top is the front of the heap, and counts unless it is the greatest number. -/
lemma Inv.top_cases : (h.heapTop = ⊤ ∧ live = ∅) ∨
      ∃ heap, h.heap = h.heapTop :: heap ∧ (∀ v ∈ live, h.heapTop ≤ v) ∧
        (h.heapTop = ⊤ ∨ h.heapTop ∈ live) := by
  have htop := inv.top
  have hsorted := inv.sorted
  have hstored := inv.stored
  cases hcons : h.heap with
  | nil =>
    rw [hcons] at htop hstored
    exact .inl ⟨htop, eq_empty_of_forall_notMem fun v hv => by simpa using hstored v hv⟩
  | cons x heap =>
    replace htop : h.heapTop = x := by rw [htop, hcons]; rfl
    rw [hcons] at hsorted hstored
    obtain ⟨hx, -⟩ := pairwise_cons.1 hsorted
    rw [htop]
    refine .inr ⟨heap, rfl, fun v hv => ?_, inv.kept x (by simp [hcons]) fun hmem => ?_⟩
    · have := (hstored v hv).1
      grind
    · -- a smaller value would be in the heap
      obtain ⟨y, hy, hlt⟩ := inv.below x hmem
      grind

lemma Inv.erase {seq : S} (hseq : seq ∈ pushed) : (h.erase seq).Inv pushed (live.erase seq) := by
  -- a value that stays in the heap is not there, or is the greatest
  have hkeep (hlive : seq ∈ live → seq = ⊤) : h.Inv pushed (live.erase seq) :=
    { inv with
      stored := fun v hv => inv.stored v (mem_of_mem_erase hv)
      kept := fun v hv hnot => by
        have := inv.kept v hv hnot
        grind }
  unfold PreparedHeap.erase
  rcases inv.top_cases with ⟨htop, hnone⟩ | ⟨heap, hcons, hle, -⟩
  · rw [if_pos htop]
    exact hkeep fun hmem => by simp [hnone] at hmem
  split_ifs with hlast hlt heq
  · exact hkeep fun hmem => top_le_iff.1 (hlast ▸ hle seq hmem)
  · exact hkeep fun hmem => absurd (hle seq hmem) (not_le.2 hlt)
  · exact heq ▸ inv.pop hcons
  · have hmem (e : S) : e ∈ h.erasedHeap.orderedInsert (· ≤ ·) seq ↔ e = seq ∨ e ∈ h.erasedHeap :=
      mem_orderedInsert _
    refine { inv with
      erasedSorted := inv.erasedSorted.orderedInsert _ _
      known := fun v hv => ?_
      below := fun e he => ?_
      stored := fun v hv => ?_
      kept := fun v hv hnot => ?_ }
    · have := inv.known v
      grind
    · rcases (hmem e).1 he with rfl | he
      · exact ⟨h.heapTop, by simp [hcons], lt_of_le_of_ne (not_lt.1 hlt) heq⟩
      · exact inv.below e he
    · obtain ⟨hne, hv⟩ := mem_erase.1 hv
      have := inv.stored v hv
      grind
    · have := inv.kept v hv
      grind

end

lemma Reached.inv (r : Reached h pushed live) : h.Inv pushed live := by
  induction r with
  | init => constructor <;> simp
  | push _ hv ih => exact ih.push hv
  | pop _ hlive ih =>
    rcases ih.top_cases with ⟨-, hnone⟩ | ⟨heap, hcons, -⟩
    · exact absurd hnone hlive.ne_empty
    · exact ih.pop hcons
  | erase _ hseq ih => exact ih.erase hseq

/-- `top` is the least value that has been pushed and neither popped nor erased, or
`kMaxSequenceNumber` if there is none. -/
theorem Reached.top_isLeast (r : Reached h pushed live) :
    (live.Nonempty → IsLeast (live : Set S) h.heapTop) ∧ (live = ∅ → h.heapTop = ⊤) := by
  rcases r.inv.top_cases with ⟨htop, hnone⟩ | ⟨heap, -, hle, hlive⟩
  · exact ⟨fun hne => absurd hnone hne.ne_empty, fun _ => htop⟩
  · refine ⟨fun ⟨v, hv⟩ => ⟨hlive.elim (fun htop => ?_) id, hle⟩, ?_⟩
    · have hv' := hle v hv
      rw [htop, top_le_iff] at hv'
      rwa [htop, ← hv']
    · rintro rfl
      exact hlive.elim id fun hmem => absurd hmem (notMem_empty _)

/-- The numbers 1, 2 and 3 are pushed, 2 is erased and the top popped. -/
theorem top_isLeast_three :
    IsLeast ((((insert 3 (insert 2 (insert 1 ∅)) : Finset (Fin 8)).erase 2).erase 1 : Finset _) :
      Set (Fin 8)) ((((({} : PreparedHeap (Fin 8)).push 1).push 2).push 3).erase 2).pop.heapTop :=
  (Reached.pop (.erase (.push (.push (.push .init (by decide)) (by decide)) (by decide))
    (by decide)) (by decide)).top_isLeast.1 (by decide)

end PreparedHeap

end BucketLSM
