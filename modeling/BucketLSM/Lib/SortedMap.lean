import BucketLSM.Lib.Keyed

/-!
# Sorted maps

A map is kept as the list of its values in the order of their keys, each key once. Two maps with
the same keys are walked together by `outerJoin`, which pairs up the values of a common key.
-/

namespace SortedMap

open List

variable {α β κ : Type} [LinearOrder κ]

/-- The keys go up, so no key occurs twice. -/
def Ascending (key : α → κ) (l : List α) : Prop := l.Pairwise fun a b => key a < key b

/-- The value with the key `k`. -/
def find (key : α → κ) (k : κ) (l : List α) : Option α := l.find? fun a => key a = k

/-- The values from the key `k` on. -/
def lowerBound (key : α → κ) (k : κ) (l : List α) : List α := l.dropWhile fun a => key a < k

/-- The map with the value `a`, which replaces one with the same key. -/
def put (key : α → κ) (a : α) : List α → List α
  | [] => [a]
  | b :: l =>
    if key a < key b then a :: b :: l
    else if key b < key a then b :: put key a l
    else a :: l

section Map

variable {key : α → κ} {l : List α} {a b : α} {k : κ}

lemma find_eq_some (h : Ascending key l) : find key k l = some a ↔ a ∈ l ∧ key a = k :=
  Keyed.find?_eq_some (pairwise_map.2 (h.imp ne_of_lt))

lemma find_eq_none : find key k l = none ↔ ∀ a ∈ l, key a ≠ k := by
  simp [find]

lemma lowerBound_eq_filter (h : Ascending key l) :
    lowerBound key k l = l.filter fun a => k ≤ key a := by
  induction l with
  | nil => rfl
  | cons b l ih =>
    obtain ⟨hlt, htail⟩ := pairwise_cons.1 h
    rw [lowerBound, dropWhile_cons]
    split_ifs with hb
    · rw [filter_cons_of_neg (by simpa using hb)]
      exact ih htail
    · have hle : k ≤ key b := by simpa using hb
      exact (filter_eq_self.2 (by simpa [hle] using fun a ha => hle.trans (hlt a ha).le)).symm

lemma mem_lowerBound (h : Ascending key l) : a ∈ lowerBound key k l ↔ a ∈ l ∧ k ≤ key a := by
  simp [lowerBound_eq_filter h]

lemma Ascending.lowerBound (h : Ascending key l) : Ascending key (lowerBound key k l) :=
  h.sublist (dropWhile_sublist _)

section

variable (h : Ascending key l)

include h

/-- The value stands between those with smaller and those with larger keys. -/
lemma put_eq : put key a l =
    l.filter (fun b => key b < key a) ++ a :: l.filter (fun b => key a < key b) := by
  induction l with
  | nil => rfl
  | cons c l ih =>
    obtain ⟨hlt, htail⟩ := pairwise_cons.1 h
    have hafter (hle : key a ≤ key c) : l.filter (fun b => key b < key a) = [] ∧
        l.filter (fun b => key a < key b) = l := by
      have hlt' : ∀ b ∈ l, key a < key b := fun b hb => hle.trans_lt (hlt b hb)
      exact ⟨by simpa using fun b hb => (hlt' b hb).le, by simpa using hlt'⟩
    rw [put]
    split_ifs with hac hca
    · simp [hafter hac.le, hac, hac.le]
    · simp [ih htail, hca, hca.le]
    · simp [hafter (not_lt.1 hca), hac, hca]

lemma perm_put : put key a l ~ a :: l.filter fun b => key b ≠ key a := by
  have hperm := filter_append_perm (fun b => key b < key a) (l.filter fun b => key b ≠ key a)
  rw [filter_filter, filter_filter] at hperm
  rw [put_eq h]
  refine perm_middle.trans (.cons _ (.trans (.of_eq ?_) hperm))
  congr 1 <;> exact filter_congr fun b _ => by grind

lemma mem_put : b ∈ put key a l ↔ b = a ∨ b ∈ l ∧ key b ≠ key a := by
  simp only [put_eq h, mem_append, mem_cons, mem_filter, decide_eq_true_eq, ne_iff_lt_or_gt]
  tauto

lemma Ascending.put (a : α) : Ascending key (put key a l) := by
  have hfilter (p : α → Bool) := Pairwise.filter p h
  rw [put_eq h]
  refine pairwise_append.2 ⟨hfilter _, pairwise_cons.2 ⟨by simp, hfilter _⟩, fun b hb c hc => ?_⟩
  have hba : key b < key a := by simpa using (mem_filter.1 hb).2
  rcases mem_cons.1 hc with rfl | hc
  · exact hba
  · exact hba.trans (by simpa using (mem_filter.1 hc).2)

lemma find_put : find key k (put key a l) = if key a = k then some a else find key k l := by
  split_ifs with hk
  · exact (find_eq_some (h.put a)).2 ⟨(mem_put h).2 (.inl rfl), hk⟩
  · ext b
    rw [find_eq_some (h.put a), find_eq_some h, mem_put h]
    constructor
    · rintro ⟨rfl | ⟨hb, -⟩, rfl⟩
      · exact absurd rfl hk
      · exact ⟨hb, rfl⟩
    · rintro ⟨hb, rfl⟩
      exact ⟨.inr ⟨hb, fun heq => hk heq.symm⟩, rfl⟩

/-- The first value with a property has the smallest key. -/
lemma key_le_of_find? {p : α → Bool} (hfind : l.find? p = some a)
    (hb : b ∈ l) (hp : p b) : key a ≤ key b := by
  obtain ⟨-, front, rest, rfl, hfront⟩ := find?_eq_some_iff_append.1 hfind
  rcases mem_append.1 hb with hb | hb
  · exact absurd hp (by simpa using hfront b hb)
  · rcases mem_cons.1 hb with rfl | hb
    · exact le_rfl
    · exact ((pairwise_cons.1 (pairwise_append.1 h).2.1).1 b hb).le

end

end Map

/-! ## Walking through two maps -/

/-- The values of a key that is in one map or in both. -/
inductive Join (α β : Type)
  | left (a : α)
  | right (b : β)
  | both (a : α) (b : β)

/-- The common key. -/
def Join.key (ka : α → κ) (kb : β → κ) : Join α β → κ
  | left a => ka a
  | right b => kb b
  | both a _ => ka a

/-- The keys of both maps in order, each with its values. -/
def outerJoin (ka : α → κ) (kb : β → κ) : List α → List β → List (Join α β)
  | [], bs => bs.map .right
  | a :: as, [] => (a :: as).map .left
  | a :: as, b :: bs =>
    if ka a < kb b then .left a :: outerJoin ka kb as (b :: bs)
    else if kb b < ka a then .right b :: outerJoin ka kb (a :: as) bs
    else .both a b :: outerJoin ka kb as bs
termination_by as bs => as.length + bs.length

section Join

variable {ka : α → κ} {kb : β → κ} {as : List α} {bs : List β}

section

variable (has : Ascending ka as)

include has

/-- What a key is joined to is what the maps have there. -/
lemma mem_outerJoin (hbs : Ascending kb bs) {j : Join α β} : j ∈ outerJoin ka kb as bs ↔
      match j with
      | .left a => a ∈ as ∧ ∀ b ∈ bs, kb b ≠ ka a
      | .right b => b ∈ bs ∧ ∀ a ∈ as, ka a ≠ kb b
      | .both a b => a ∈ as ∧ b ∈ bs ∧ ka a = kb b := by
  fun_induction outerJoin ka kb as bs with
  | case1 bs => cases j <;> simp
  | case2 a as => cases j <;> simp
  | case3 a as b bs hlt ih =>
    obtain ⟨ha, has⟩ := pairwise_cons.1 has
    have hb : ∀ x ∈ b :: bs, kb x ≠ ka a := by
      intro x hx
      rcases mem_cons.1 hx with rfl | hx
      · exact hlt.ne'
      · exact (hlt.trans ((pairwise_cons.1 hbs).1 x hx)).ne'
    rw [mem_cons, ih has hbs]
    cases j <;> grind
  | case4 a as b bs hlt hlt' ih =>
    obtain ⟨hb, hbs⟩ := pairwise_cons.1 hbs
    have ha : ∀ x ∈ a :: as, ka x ≠ kb b := by
      intro x hx
      rcases mem_cons.1 hx with rfl | hx
      · exact hlt'.ne'
      · exact (hlt'.trans ((pairwise_cons.1 has).1 x hx)).ne'
    rw [mem_cons, ih has hbs]
    cases j <;> grind
  | case5 a as b bs hlt hlt' ih =>
    obtain ⟨ha, has⟩ := pairwise_cons.1 has
    obtain ⟨hb, hbs⟩ := pairwise_cons.1 hbs
    have heq : ka a = kb b := le_antisymm (not_lt.1 hlt') (not_lt.1 hlt)
    rw [mem_cons, ih has hbs]
    cases j <;> grind

lemma key_of_mem_outerJoin (hbs : Ascending kb bs) {j : Join α β} (h : j ∈ outerJoin ka kb as bs) :
    (∃ a ∈ as, ka a = j.key ka kb) ∨ ∃ b ∈ bs, kb b = j.key ka kb := by
  rw [mem_outerJoin has hbs] at h
  cases j with
  | left a | both a b => exact .inl ⟨a, h.1, rfl⟩
  | right b => exact .inr ⟨b, h.1, rfl⟩

lemma ascending_outerJoin (hbs : Ascending kb bs) :
    Ascending (Join.key ka kb) (outerJoin ka kb as bs) := by
  fun_induction outerJoin ka kb as bs with
  | case1 bs => exact pairwise_map.2 hbs
  | case2 a as => exact pairwise_map.2 has
  | case3 a as b bs hlt ih =>
    obtain ⟨ha, has⟩ := pairwise_cons.1 has
    refine pairwise_cons.2 ⟨fun j hj => ?_, ih has hbs⟩
    rcases key_of_mem_outerJoin has hbs hj with ⟨x, hx, hkey⟩ | ⟨x, hx, hkey⟩
    · exact hkey ▸ ha x hx
    · rcases mem_cons.1 hx with rfl | hx
      · exact hkey ▸ hlt
      · exact hkey ▸ hlt.trans ((pairwise_cons.1 hbs).1 x hx)
  | case4 a as b bs hlt hlt' ih =>
    obtain ⟨hb, hbs⟩ := pairwise_cons.1 hbs
    refine pairwise_cons.2 ⟨fun j hj => ?_, ih has hbs⟩
    rcases key_of_mem_outerJoin has hbs hj with ⟨x, hx, hkey⟩ | ⟨x, hx, hkey⟩
    · rcases mem_cons.1 hx with rfl | hx
      · exact hkey ▸ hlt'
      · exact hkey ▸ hlt'.trans ((pairwise_cons.1 has).1 x hx)
    · exact hkey ▸ hb x hx
  | case5 a as b bs hlt hlt' ih =>
    obtain ⟨ha, has⟩ := pairwise_cons.1 has
    obtain ⟨hb, hbs⟩ := pairwise_cons.1 hbs
    have heq : ka a = kb b := le_antisymm (not_lt.1 hlt') (not_lt.1 hlt)
    refine pairwise_cons.2 ⟨fun j hj => ?_, ih has hbs⟩
    rcases key_of_mem_outerJoin has hbs hj with ⟨x, hx, hkey⟩ | ⟨x, hx, hkey⟩
    · exact hkey ▸ ha x hx
    · exact hkey ▸ heq.trans_lt (hb x hx)

end

end Join

end SortedMap
