import Mathlib.Order.Bounds.Basic
import Mathlib.Data.List.Sort
import Mathlib.Data.Prod.Lex
import Mathlib.Tactic.Common

/-!
# Cursors over ordered sets

A cursor stands on an element of an ordered set or is exhausted, which is an `Option`.
`IsFirst S o` says that `o` is the position a cursor takes when it looks for the first
element of `S`: the least element, or nothing when `S` is empty. `IsLast` is its mirror
image. A cursor over a sorted list finds both by a linear search (`find?_isFirst`,
`find?_reverse_isLast`), and the best of several cursors is the first element of the union
of what they look for (`bestOf_isFirst`, `IsFirst.of_cursors`).
-/

namespace Cursor

open List Option

variable {κ : Type*} [LinearOrder κ]

/-- `o` is the least element of `S`, or nothing if `S` is empty. -/
def IsFirst (S : Set κ) (o : Option κ) : Prop :=
  match o with
  | some k => IsLeast S k
  | none => S = ∅

/-- `o` is the greatest element of `S`, or nothing if `S` is empty. -/
def IsLast (S : Set κ) (o : Option κ) : Prop :=
  match o with
  | some k => IsGreatest S k
  | none => S = ∅

variable {S : Set κ} {o o' : Option κ} {l : List κ}

@[simp]
lemma isFirst_some {k : κ} : IsFirst S (some k) ↔ IsLeast S k := Iff.rfl

@[simp]
lemma isFirst_none : IsFirst S none ↔ S = ∅ := Iff.rfl

@[simp]
lemma isLast_some {k : κ} : IsLast S (some k) ↔ IsGreatest S k := Iff.rfl

@[simp]
lemma isLast_none : IsLast S none ↔ S = ∅ := Iff.rfl

lemma IsFirst.unique (h : IsFirst S o) (h' : IsFirst S o') : o = o' := by
  cases o with
  | none =>
    cases o' with
    | none => rfl
    | some k => exact absurd h'.1 (by rw [isFirst_none.1 h]; exact Set.notMem_empty k)
  | some k =>
    cases o' with
    | none => exact absurd h.1 (by rw [isFirst_none.1 h']; exact Set.notMem_empty k)
    | some k' => rw [IsLeast.unique h h']

lemma IsLast.unique (h : IsLast S o) (h' : IsLast S o') : o = o' :=
  IsFirst.unique (κ := κᵒᵈ) h h'

/-- A smaller set has the same first position exactly when it holds the least element. -/
lemma IsFirst.eq_iff {A B : Set κ} (h : IsFirst A o) (h' : IsFirst B o') (hsub : A ⊆ B) :
    o = o' ↔ ∀ q, IsLeast B q → q ∈ A := by
  constructor
  · rintro rfl q hq
    obtain rfl := h'.unique (isFirst_some.2 hq)
    exact h.1
  · intro hall
    cases o' with
    | none =>
      refine h.unique (isFirst_none.2 (Set.eq_empty_of_forall_notMem fun k hk => ?_))
      have hk' := hsub hk
      rw [isFirst_none.1 h'] at hk'
      exact hk'
    | some q => exact h.unique ⟨hall q h', fun k hk => h'.2 (hsub hk)⟩

lemma IsLast.eq_iff {A B : Set κ} (h : IsLast A o) (h' : IsLast B o') (hsub : A ⊆ B) :
    o = o' ↔ ∀ q, IsGreatest B q → q ∈ A :=
  IsFirst.eq_iff (κ := κᵒᵈ) h h' hsub

/-! ## Searching a sorted list -/

/-- In a strictly increasing list, a linear search finds the least element it looks for. -/
lemma find?_isFirst (hl : l.Pairwise (· < ·)) (p : κ → Bool) :
    IsFirst {k | k ∈ l ∧ p k} (l.find? p) := by
  cases h : l.find? p with
  | none =>
    rw [find?_eq_none] at h
    exact Set.eq_empty_of_forall_notMem fun k hk => h k hk.1 hk.2
  | some k =>
    obtain ⟨hp, as, bs, rfl, hnot⟩ := find?_eq_some_iff_append.1 h
    refine ⟨⟨by simp, hp⟩, fun k' hk' => ?_⟩
    rcases mem_append.1 hk'.1 with hmem | hmem
    · have := hnot k' hmem
      simp [hk'.2] at this
    · rcases mem_cons.1 hmem with rfl | hmem
      · exact le_rfl
      · have hcons := (pairwise_append.1 hl).2.1
        exact ((pairwise_cons.1 hcons).1 k' hmem).le

/-- Every set of elements of a sorted list has a first position. -/
lemma exists_isFirst (hl : l.Pairwise (· < ·)) (hS : ∀ k ∈ S, k ∈ l) : ∃ o, IsFirst S o := by
  classical
  refine ⟨l.find? fun k => decide (k ∈ S), ?_⟩
  have hset : S = {k | k ∈ l ∧ decide (k ∈ S) = true} := by
    ext k
    simpa using hS k
  nth_rewrite 1 [hset]
  exact find?_isFirst hl fun k => decide (k ∈ S)

/-- In a strictly increasing list, a linear search from the end finds the greatest element
it looks for. -/
lemma find?_reverse_isLast (hl : l.Pairwise (· < ·)) (p : κ → Bool) :
    IsLast {k | k ∈ l ∧ p k} (l.reverse.find? p) := by
  have hrev : l.reverse.Pairwise (· > ·) := pairwise_reverse.2 hl
  have hset : {k | k ∈ l ∧ p k} = {k | k ∈ l.reverse ∧ p k} := by simp
  rw [hset]
  exact find?_isFirst (κ := κᵒᵈ) hrev p

/-! ## The best of several cursors -/

section

variable {κ : Type*}

/-- The first position that no earlier one beats and that beats every earlier best: the
loop that looks for the best of several cursors. `i` counts the cursors passed and `best`
is the index and key of the best one so far. -/
def bestOf (better : κ → κ → Bool) : ℕ → Option (ℕ × κ) → List (Option κ) → Option (ℕ × κ)
  | _, best, [] => best
  | i, best, none :: l => bestOf better (i + 1) best l
  | i, none, some k :: l => bestOf better (i + 1) (some (i, k)) l
  | i, some (j, k'), some k :: l =>
    if better k k' then bestOf better (i + 1) (some (i, k)) l
    else bestOf better (i + 1) (some (j, k')) l

/-- A place in a list, counted from `i`, when the list grows at the front. -/
lemma getElem?_cons_sub {o : Option κ} {l : List (Option κ)} {i j : ℕ} {k : κ}
    (h : i + 1 ≤ j ∧ l[j - (i + 1)]? = some (some k)) :
    i ≤ j ∧ (o :: l)[j - i]? = some (some k) := by
  obtain ⟨hj, hget⟩ := h
  refine ⟨by omega, ?_⟩
  rw [show j - i = j - (i + 1) + 1 by omega, getElem?_cons_succ, hget]

lemma bestOf_getElem?_sub {better : κ → κ → Bool} {l : List (Option κ)} {i j : ℕ} {k : κ}
    {best : Option (ℕ × κ)} (h : bestOf better i best l = some (j, k)) :
    best = some (j, k) ∨ i ≤ j ∧ l[j - i]? = some (some k) := by
  fun_induction bestOf better i best l with
  | case1 i best => exact .inl h
  | case2 i best l ih => exact (ih h).imp_right getElem?_cons_sub
  | case3 i x l ih =>
    rcases ih h with heq | hget
    · cases heq
      exact .inr ⟨le_rfl, by simp⟩
    · exact .inr (getElem?_cons_sub hget)
  | case4 i j' k' x l hbetter ih =>
    rcases ih h with heq | hget
    · cases heq
      exact .inr ⟨le_rfl, by simp⟩
    · exact .inr (getElem?_cons_sub hget)
  | case5 i j' k' x l hbetter ih => exact (ih h).imp_right getElem?_cons_sub

lemma bestOf_getElem? {better : κ → κ → Bool} {l : List (Option κ)} {i : ℕ} {k : κ}
    (h : bestOf better 0 none l = some (i, k)) : l[i]? = some (some k) := by
  simpa using bestOf_getElem?_sub h

end

lemma IsFirst.insert {a b : κ} (h : IsFirst S o) (ha : a ∈ S) (hab : a ≤ b) :
    IsFirst (insert b S) o := by
  cases o with
  | none => exact absurd ha (by rw [isFirst_none.1 h]; exact Set.notMem_empty a)
  | some k => exact ⟨.inr h.1, Set.forall_mem_insert.2 ⟨(h.2 ha).trans hab, h.2⟩⟩

lemma bestOf_isFirst_of (i : ℕ) (best : Option (ℕ × κ)) (l : List (Option κ)) :
    IsFirst {k | some k ∈ l ∨ some k = best.map Prod.snd}
      ((bestOf (fun a b => decide (a < b)) i best l).map Prod.snd) := by
  fun_induction bestOf (fun a b => decide (a < b)) i best l with
  | case1 i best => cases best <;> simp [IsFirst, IsLeast]
  | case2 i best l ih => simpa using ih
  | case3 i x l ih => simpa [or_comm] using ih
  | case4 i j k x l hlt ih =>
    have hle := (of_decide_eq_true hlt).le
    convert ih.insert (.inr rfl) hle using 1
    ext q
    simp [or_comm]
  | case5 i j k x l hlt ih =>
    have hle : k ≤ x := by simpa using hlt
    convert ih.insert (.inr rfl) hle using 1
    ext q
    simp only [Set.mem_insert_iff, Set.mem_ofPred_eq, mem_cons, some.injEq, map_some]
    tauto

lemma bestOf_isFirst (l : List (Option κ)) :
    IsFirst {k | some k ∈ l} ((bestOf (fun a b => decide (a < b)) 0 none l).map Prod.snd) := by
  simpa using bestOf_isFirst_of 0 none l

lemma bestOf_isLast (l : List (Option κ)) :
    IsLast {k | some k ∈ l} ((bestOf (fun a b => decide (b < a)) 0 none l).map Prod.snd) :=
  bestOf_isFirst (κ := κᵒᵈ) l

/-- If every cursor of a family stands on the first element of its set, the first position
among them is the first element of the union. -/
lemma IsFirst.of_cursors {ι : Type*} {S : ι → Set κ} {o : ι → Option κ} {P : Set ι}
    {r : Option κ} (hr : IsFirst {k | ∃ i ∈ P, o i = some k} r)
    (h : ∀ i ∈ P, IsFirst (S i) (o i)) : IsFirst {k | ∃ i ∈ P, k ∈ S i} r := by
  -- every element of the union has a cursor at or before it
  have hbefore : ∀ k, (∃ i ∈ P, k ∈ S i) → ∃ k', (∃ i ∈ P, o i = some k') ∧ k' ≤ k := by
    rintro k ⟨i, hi, hk⟩
    have hfirst := h i hi
    cases ho : o i with
    | none =>
      rw [ho, isFirst_none] at hfirst
      exact absurd hk (by rw [hfirst]; exact Set.notMem_empty k)
    | some k' =>
      rw [ho] at hfirst
      exact ⟨k', ⟨i, hi, ho⟩, hfirst.2 hk⟩
  cases r with
  | none =>
    refine Set.eq_empty_of_forall_notMem fun k hk => ?_
    obtain ⟨k', hk', -⟩ := hbefore k hk
    exact absurd (show k' ∈ {k | ∃ i ∈ P, o i = some k} from hk')
      (by rw [isFirst_none.1 hr]; exact Set.notMem_empty k')
  | some m =>
    obtain ⟨⟨i, hi, ho⟩, hle⟩ := hr
    have hfirst := h i hi
    rw [ho] at hfirst
    refine ⟨⟨i, hi, hfirst.1⟩, fun k hk => ?_⟩
    obtain ⟨k', hk', hle'⟩ := hbefore k hk
    exact (hle hk').trans hle'

lemma IsLast.of_cursors {ι : Type*} {S : ι → Set κ} {o : ι → Option κ} {P : Set ι}
    {r : Option κ} (hr : IsLast {k | ∃ i ∈ P, o i = some k} r)
    (h : ∀ i ∈ P, IsLast (S i) (o i)) : IsLast {k | ∃ i ∈ P, k ∈ S i} r :=
  IsFirst.of_cursors (κ := κᵒᵈ) hr h

/-! ## The first candidate with the least key -/

section

variable {ι : Type*}

/-- The loop that keeps the first candidate with the least key, starting from `best`. -/
def argminFrom (cand : ι → Bool) (key : ι → κ) : Option ι → List ι → Option ι
  | best, [] => best
  | best, i :: l =>
    if cand i then
      match best with
      | none => argminFrom cand key (some i) l
      | some b => if key i < key b then argminFrom cand key (some i) l
        else argminFrom cand key (some b) l
    else argminFrom cand key best l

/-- `b` comes before `i` when its key is smaller, or the keys agree and `b` is first. -/
def KeyBefore [LinearOrder ι] (key : ι → κ) (b i : ι) : Prop :=
  key b < key i ∨ key b = key i ∧ b ≤ i

lemma keyBefore_iff [LinearOrder ι] {key : ι → κ} {b i : ι} :
    KeyBefore key b i ↔ toLex (key b, b) ≤ toLex (key i, i) := by
  rw [Prod.Lex.toLex_le_toLex, KeyBefore]

lemma argminFrom_filter (cand : ι → Bool) (key : ι → κ) (best : Option ι) (l : List ι) :
    argminFrom cand key best l = argminFrom (fun _ => true) key best (l.filter cand) := by
  induction l generalizing best with
  | nil => rfl
  | cons i l ih =>
    by_cases hc : cand i
    · cases best <;> simp [argminFrom, hc, ih]
    · simp [argminFrom, hc, ih]

/-- From a first candidate on, the loop returns the candidate that comes before all others. -/
lemma argminFrom_some [LinearOrder ι] (key : ι → κ) {b : ι} {l : List ι}
    (hl : (b :: l).Pairwise (· < ·)) : ∃ r ∈ b :: l,
      argminFrom (fun _ => true) key (some b) l = some r ∧ ∀ i ∈ b :: l, KeyBefore key r i := by
  simp only [keyBefore_iff]
  induction l generalizing b with
  | nil => exact ⟨b, mem_cons_self, rfl, by simp⟩
  | cons i l ih =>
    obtain ⟨hb, hl⟩ := pairwise_cons.1 hl
    by_cases hlt : key i < key b
    · obtain ⟨r, hr, heq, hall⟩ := ih hl
      refine ⟨r, mem_cons_of_mem b hr, by simpa [argminFrom, hlt] using heq, ?_⟩
      refine forall_mem_cons.2 ⟨(hall i mem_cons_self).trans ?_, hall⟩
      exact Prod.Lex.toLex_le_toLex.2 (.inl hlt)
    · obtain ⟨r, hr, heq, hall⟩ := ih (hl.of_cons.cons fun j hj => hb j (mem_cons_of_mem i hj))
      obtain ⟨hrb, hrest⟩ := forall_mem_cons.1 hall
      refine ⟨r, ?_, by simpa [argminFrom, hlt] using heq, ?_⟩
      · exact (mem_cons.1 hr).elim (· ▸ mem_cons_self) fun h => by simp [h]
      · refine forall_mem_cons.2 ⟨hrb, forall_mem_cons.2 ⟨hrb.trans ?_, hrest⟩⟩
        rw [Prod.Lex.toLex_le_toLex]
        exact (not_lt.1 hlt).lt_or_eq.imp_right fun h => ⟨h, (hb i mem_cons_self).le⟩

/-- The loop returns a candidate that comes before all others, or nothing if there is none. -/
lemma argminFrom_spec [LinearOrder ι] (cand : ι → Bool) (key : ι → κ) {l : List ι}
    (hl : l.Pairwise (· < ·)) : match argminFrom cand key none l with
    | some b => (b ∈ l ∧ cand b) ∧ ∀ i ∈ l, cand i → KeyBefore key b i
    | none => ∀ i ∈ l, ¬ cand i := by
  have hl' := hl.filter cand
  rw [argminFrom_filter]
  cases hf : l.filter cand with
  | nil => exact filter_eq_nil_iff.1 hf
  | cons b l' =>
    rw [hf] at hl'
    obtain ⟨r, hr, heq, hall⟩ := argminFrom_some key hl'
    rw [argminFrom, if_pos rfl, heq]
    rw [← hf] at hr hall
    exact ⟨mem_filter.1 hr, fun i hi hc => hall i (mem_filter.2 ⟨hi, hc⟩)⟩

end

end Cursor
