import Mathlib.Data.Fintype.Pigeonhole
import Mathlib.Data.List.Induction
import Mathlib.Dynamics.FixedPoints.Basic
import Mathlib.Logic.Relation
import Mathlib.Tactic.Common

/-!
# Union-find

A forest of parent pointers over `Fin n` with path compression, linked either plainly or by
rank. A class is known by its root; the classes after a sequence of unions are the
equivalence generated by the united pairs, whichever way roots were linked. The classes are
read out by pushing every element under its root into an ordered map of vectors.
-/

/-! ## Parent functions -/

namespace UnionFind

open Function List

variable {n : ℕ}

/-- Following `p` always gets closer to a fixed point. -/
def Acyclic (p : Fin n → Fin n) : Prop :=
  ∃ depth : Fin n → ℕ, ∀ x, p x ≠ x → depth (p x) < depth x

/-- The element reached after `n` steps, which is a root when `p` is acyclic. -/
def rootOf (p : Fin n → Fin n) (x : Fin n) : Fin n := p^[n] x

variable {p : Fin n → Fin n}

lemma iterate_eq_of_fixed {x : Fin n} (h : p x = x) (k : ℕ) : p^[k] x = x :=
  iterate_fixed h k

/-- Paths are shorter than `n`: otherwise `n + 1` elements would have distinct depths. -/
lemma Acyclic.apply_rootOf (hp : Acyclic p) (x : Fin n) : p (rootOf p x) = rootOf p x := by
  obtain ⟨depth, hdepth⟩ := hp
  by_contra hne
  have hmoves : ∀ k ≤ n, p (p^[k] x) ≠ p^[k] x := by
    intro k hk hfix
    refine hne ?_
    obtain ⟨d, hd⟩ := Nat.exists_eq_add_of_le' hk
    have hroot : p^[n] x = p^[k] x := by
      calc p^[n] x = p^[d + k] x := congrArg (fun m => p^[m] x) hd
        _ = p^[k] x := by rw [iterate_add_apply, iterate_eq_of_fixed hfix]
    rw [rootOf, hroot, hfix]
  have hlt : ∀ k ≤ n, depth (p^[k + 1] x) < depth (p^[k] x) := by
    intro k hk
    rw [iterate_succ_apply']
    exact hdepth _ (hmoves k hk)
  have hanti : ∀ i j, i < j → j ≤ n → depth (p^[j] x) < depth (p^[i] x) := by
    intro i j hij hj
    induction j, hij using Nat.le_induction with
    | base => exact hlt i (by omega)
    | succ j _ ih => exact (hlt j (by omega)).trans (ih (by omega))
  obtain ⟨i, j, hij, heq⟩ := Fintype.exists_ne_map_eq_of_card_lt
    (fun k : Fin (n + 1) => p^[k.val] x) (by simp)
  have hval : i.val ≠ j.val := fun h => hij (Fin.ext h)
  rcases Nat.lt_or_gt_of_ne hval with h | h
  · exact absurd (hanti i j h (by omega)) (by simp [show p^[i.val] x = p^[j.val] x from heq])
  · exact absurd (hanti j i h (by omega)) (by simp [show p^[i.val] x = p^[j.val] x from heq])

/-- The root is determined by what parents have in common. -/
lemma Acyclic.rootOf_eq (hp : Acyclic p) {f : Fin n → Fin n} (hstep : ∀ x, f (p x) = f x)
    (hfix : ∀ x, p x = x → f x = x) (x : Fin n) : rootOf p x = f x := by
  have hiter : ∀ k, f (p^[k] x) = f x := by
    intro k
    induction k with
    | zero => rfl
    | succ k ih => rw [iterate_succ_apply', hstep, ih]
  rw [← hiter n]
  exact (hfix _ (hp.apply_rootOf x)).symm

lemma rootOf_of_fixed {x : Fin n} (h : p x = x) : rootOf p x = x :=
  iterate_eq_of_fixed h n

lemma Acyclic.rootOf_apply (hp : Acyclic p) (x : Fin n) : rootOf p (p x) = rootOf p x := by
  rw [rootOf, ← iterate_succ_apply, iterate_succ_apply']
  exact hp.apply_rootOf x

/-- Depth decreases along the way to the root, not only to the parent. -/
lemma depth_rootOf_le {depth : Fin n → ℕ} (hdepth : ∀ x, p x ≠ x → depth (p x) < depth x)
    (x : Fin n) : depth (rootOf p x) ≤ depth x := by
  have hle : ∀ k, depth (p^[k] x) ≤ depth x := by
    intro k
    induction k with
    | zero => exact le_rfl
    | succ k ih =>
      rw [iterate_succ_apply']
      by_cases h : p (p^[k] x) = p^[k] x
      · rw [h]
        exact ih
      · exact (hdepth _ h).le.trans ih
  exact hle n

/-! ## Path compression -/

/-- `find` on the parent array: every element on the way is pointed at the root. The fuel
bounds the length of the way. -/
def compress : ℕ → (Fin n → Fin n) → Fin n → (Fin n → Fin n) × Fin n
  | 0, p, x => (p, x)
  | fuel + 1, p, x =>
    if p x ≠ x then
      let (p', r) := compress fuel p (p x)
      (Function.update p' x r, r)
    else (p, x)

/-- `p'` has the parents of `p`, or skips from an element to its root. -/
def Shortcut (p p' : Fin n → Fin n) : Prop := ∀ y, p' y = p y ∨ p' y = rootOf p y

lemma Acyclic.shortcut {p' : Fin n → Fin n} (hp : Acyclic p) (h : Shortcut p p') : Acyclic p' := by
  obtain ⟨depth, hdepth⟩ := hp
  refine ⟨depth, fun y hy => ?_⟩
  rcases h y with hy' | hy'
  · rw [hy'] at hy ⊢
    exact hdepth y hy
  · rw [hy'] at hy ⊢
    have hne : p y ≠ y := fun hfix => hy (rootOf_of_fixed hfix)
    rw [← Acyclic.rootOf_apply ⟨depth, hdepth⟩ y]
    exact (depth_rootOf_le hdepth (p y)).trans_lt (hdepth y hne)

lemma rootOf_shortcut {p' : Fin n → Fin n} (hp : Acyclic p) (h : Shortcut p p') (x : Fin n) :
    rootOf p' x = rootOf p x := by
  refine (hp.shortcut h).rootOf_eq (fun y => ?_) (fun y hy => ?_) x
  · rcases h y with hy | hy
    · rw [hy, hp.rootOf_apply]
    · rw [hy, rootOf_of_fixed (hp.apply_rootOf y)]
  · rcases h y with hy' | hy'
    · exact rootOf_of_fixed (hy' ▸ hy)
    · exact hy' ▸ hy

/-- With fuel for the way, `compress` returns the root and only shortens ways. -/
lemma compress_spec (hp : Acyclic p) (fuel : ℕ) (x : Fin n) (hfuel : p (p^[fuel] x) = p^[fuel] x)
    : (compress fuel p x).2 = rootOf p x ∧ Shortcut p (compress fuel p x).1 := by
  induction fuel generalizing x with
  | zero => exact ⟨(rootOf_of_fixed hfuel).symm, fun y => .inl rfl⟩
  | succ fuel ih =>
    unfold compress
    split_ifs with hx
    · obtain ⟨hroot, hshort⟩ := ih (p x) (by simpa using hfuel)
      rw [hp.rootOf_apply] at hroot
      refine ⟨hroot, fun y => ?_⟩
      by_cases hy : y = x
      · subst hy
        exact .inr (by simp [hroot])
      · simpa [update_of_ne hy] using hshort y
    · exact ⟨(rootOf_of_fixed (not_not.1 hx)).symm, fun y => .inl rfl⟩

/-! ## Linking two roots -/

lemma Acyclic.update (hp : Acyclic p) {a b : Fin n} (ha : p a = a) (hb : p b = b) (hab : a ≠ b) :
    Acyclic (Function.update p a b) := by
  obtain ⟨depth, hdepth⟩ := hp
  -- the whole tree of `a` is moved below `b`
  refine ⟨fun y => depth y + if rootOf p y = a then depth b + 1 else 0, fun y hy => ?_⟩
  dsimp only
  by_cases hya : y = a
  · subst hya
    rw [update_self, rootOf_of_fixed hb, rootOf_of_fixed ha, if_neg hab.symm, if_pos rfl]
    omega
  · rw [update_of_ne hya] at hy ⊢
    rw [Acyclic.rootOf_apply ⟨depth, hdepth⟩]
    exact Nat.add_lt_add_right (hdepth y hy) _

lemma rootOf_update (hp : Acyclic p) {a b : Fin n} (ha : p a = a) (hb : p b = b) (hab : a ≠ b)
    (x : Fin n) : rootOf (Function.update p a b) x = if rootOf p x = a then b else rootOf p x := by
  refine (hp.update ha hb hab).rootOf_eq
    (f := fun y => if rootOf p y = a then b else rootOf p y) (fun y => ?_) (fun y hy => ?_) x
  · by_cases hya : y = a
    · subst hya
      simp [rootOf_of_fixed hb, rootOf_of_fixed ha]
    · simp only [update_of_ne hya, hp.rootOf_apply]
  · have hya : y ≠ a := by
      rintro rfl
      exact hab (by simpa using hy.symm)
    rw [update_of_ne hya] at hy
    simp [rootOf_of_fixed hy, hya]

end UnionFind

/-! ## The structure -/

/-- Parent pointers and ranks, without cycles. -/
structure UnionFind (n : ℕ) where
  parent : Fin n → Fin n
  rank : Fin n → ℕ
  acyclic : UnionFind.Acyclic parent

namespace UnionFind

open List

variable {n : ℕ}

/-- Every element on its own. -/
def init (n : ℕ) : UnionFind n := ⟨id, fun _ => 0, fun _ => 0, fun _ h => absurd rfl h⟩

/-- The representative of a class. -/
def root (u : UnionFind n) (x : Fin n) : Fin n := rootOf u.parent x

/-- Two elements are in one class. -/
def Same (u : UnionFind n) (x y : Fin n) : Prop := u.root x = u.root y

lemma same_equivalence (u : UnionFind n) : Equivalence u.Same :=
  ⟨fun _ => rfl, fun h => h.symm, fun h h' => h.trans h'⟩

@[simp]
lemma root_init (x : Fin n) : (init n).root x = x := rootOf_of_fixed rfl

variable {x y : Fin n} {u u' : UnionFind n} {op : UnionFind n → Fin n → Fin n → UnionFind n}

lemma same_init : (init n).Same x y ↔ x = y := by
  simp [Same]

lemma compress_shortcut (u : UnionFind n) (x : Fin n) :
    (compress n u.parent x).2 = u.root x ∧ Shortcut u.parent (compress n u.parent x).1 :=
  compress_spec u.acyclic n x (u.acyclic.apply_rootOf x)

/-- `find` with path compression: the new forest and the representative. -/
def find (u : UnionFind n) (x : Fin n) : UnionFind n × Fin n :=
  (⟨(compress n u.parent x).1, u.rank, u.acyclic.shortcut (u.compress_shortcut x).2⟩,
    (compress n u.parent x).2)

@[simp]
lemma find_snd (u : UnionFind n) (x : Fin n) : (u.find x).2 = u.root x :=
  (u.compress_shortcut x).1

@[simp]
lemma root_find (u : UnionFind n) (x y : Fin n) : (u.find x).1.root y = u.root y :=
  rootOf_shortcut u.acyclic (u.compress_shortcut x).2 y

lemma parent_root (u : UnionFind n) (x : Fin n) : u.parent (u.root x) = u.root x :=
  u.acyclic.apply_rootOf x

/-- The root `a` is pointed at the root `b`. -/
def link (u : UnionFind n) (a b : Fin n) (ha : u.parent a = a) (hb : u.parent b = b)
    (hab : a ≠ b) (rank : Fin n → ℕ) : UnionFind n :=
  ⟨Function.update u.parent a b, rank, u.acyclic.update ha hb hab⟩

lemma root_link (u : UnionFind n) {a b : Fin n} (ha : u.parent a = a) (hb : u.parent b = b)
    (hab : a ≠ b) (rank : Fin n → ℕ) (x : Fin n) :
    (u.link a b ha hb hab rank).root x = if u.root x = a then b else u.root x :=
  rootOf_update u.acyclic ha hb hab x

/-- The representatives `find` returns for `x` and then for `y` are roots afterwards. -/
lemma parent_find_find (u : UnionFind n) (x y : Fin n) :
    ((u.find x).1.find y).1.parent (u.find x).2 = (u.find x).2 ∧
    ((u.find x).1.find y).1.parent ((u.find x).1.find y).2 = ((u.find x).1.find y).2 := by
  have hroot : ∀ z, ((u.find x).1.find y).1.parent (u.root z) = u.root z := by
    intro z
    have h := parent_root ((u.find x).1.find y).1 z
    rwa [root_find, root_find] at h
  simp only [find_snd, root_find]
  exact ⟨hroot x, hroot y⟩

/-- `union_sets`: the representative of `x` is pointed at that of `y`. -/
def unionSets (u : UnionFind n) (x y : Fin n) : UnionFind n :=
  let px := (u.find x).2
  let py := ((u.find x).1.find y).2
  let u' := ((u.find x).1.find y).1
  if h : px ≠ py then
    u'.link px py (u.parent_find_find x y).1 (u.parent_find_find x y).2 h u'.rank
  else u'

/-- `unite`, union by rank: the representative of smaller rank is pointed at the other, that
of `y` on a tie. -/
def unite (u : UnionFind n) (x y : Fin n) : UnionFind n :=
  let px := (u.find x).2
  let py := ((u.find x).1.find y).2
  let u' := ((u.find x).1.find y).1
  if h : px = py then u'
  else if u'.rank px < u'.rank py then
    u'.link px py (u.parent_find_find x y).1 (u.parent_find_find x y).2 h u'.rank
  else if u'.rank px > u'.rank py then
    u'.link py px (u.parent_find_find x y).2 (u.parent_find_find x y).1 (Ne.symm h) u'.rank
  else
    u'.link py px (u.parent_find_find x y).2 (u.parent_find_find x y).1 (Ne.symm h)
      (Function.update u'.rank px (u'.rank px + 1))

/-! ## Classes after unions -/

/-- `u'` has the classes of `u` with those of `x` and `y` merged. -/
def Merges (u u' : UnionFind n) (x y : Fin n) : Prop :=
  ∀ a b, u'.Same a b ↔ u.Same a b ∨ u.Same a x ∧ u.Same b y ∨ u.Same a y ∧ u.Same b x

lemma merges_of_same (hroot : ∀ z, u'.root z = u.root z) (h : u.root x = u.root y) :
    u.Merges u' x y := by
  intro a b
  simp only [Same, hroot]
  constructor
  · exact .inl
  · rintro (hab | ⟨ha, hb⟩ | ⟨ha, hb⟩)
    · exact hab
    · rw [ha, hb, h]
    · rw [ha, hb, h]

lemma merges_of_link (h : u.root x ≠ u.root y)
    (hroot : ∀ z, u'.root z = if u.root z = u.root x then u.root y else u.root z) :
    u.Merges u' x y := by
  intro a b
  simp only [Same, hroot]
  split_ifs with ha hb hb
  · simp [ha, hb]
  · simp only [ha, h, false_and, or_false, true_and]
    exact ⟨fun hy => .inr hy.symm, fun hy => (hy.resolve_left fun hx => hb hx.symm).symm⟩
  · simp only [hb, h, and_false, false_or, and_true]
    exact ⟨.inr, fun hy => hy.resolve_left ha⟩
  · simp [ha, hb]

lemma Merges.symm (h : u.Merges u' x y) : u.Merges u' y x := by
  intro a b
  rw [h a b]
  tauto

lemma merges_unionSets (u : UnionFind n) (x y : Fin n) : u.Merges (u.unionSets x y) x y := by
  unfold unionSets
  dsimp only
  split_ifs with h
  · refine merges_of_link (by simpa using h) fun z => ?_
    simp [root_link]
  · exact merges_of_same (by simp) (by simpa using h)

lemma merges_unite (u : UnionFind n) (x y : Fin n) : u.Merges (u.unite x y) x y := by
  unfold unite
  dsimp only
  split_ifs with h
  · exact merges_of_same (by simp) (by simpa using h)
  · refine merges_of_link (by simpa using h) fun z => ?_
    simp [root_link]
  · refine (merges_of_link (by simpa using Ne.symm h) fun z => ?_).symm
    simp [root_link]
  · refine (merges_of_link (by simpa using Ne.symm h) fun z => ?_).symm
    simp [root_link]

lemma eqvGen_of_le {α : Type*} {r s : α → α → Prop}
    (h : ∀ x y, r x y → Relation.EqvGen s x y) {a b : α} (hab : Relation.EqvGen r a b) :
    Relation.EqvGen s a b :=
  (Relation.EqvGen.is_equivalence s).eqvGen_iff.1 (Relation.EqvGen.mono h a b hab)

/-- After the unions of a list of pairs, two elements are in one class iff the pairs, on top
of the classes there were, connect them. -/
lemma same_foldl_iff (hop : ∀ u x y, Merges u (op u x y) x y) (u : UnionFind n)
    (pairs : List (Fin n × Fin n)) (a b : Fin n) :
    (pairs.foldl (fun u p => op u p.1 p.2) u).Same a b ↔
      Relation.EqvGen (fun x y => u.Same x y ∨ (x, y) ∈ pairs) a b := by
  induction pairs generalizing u with
  | nil =>
    simp only [foldl_nil, not_mem_nil, or_false]
    exact (u.same_equivalence.eqvGen_iff).symm
  | cons p pairs ih =>
    obtain ⟨x, y⟩ := p
    rw [foldl_cons, ih]
    constructor
    · refine eqvGen_of_le fun c d hcd => ?_
      have hold : ∀ {c d}, u.Same c d →
          Relation.EqvGen (fun c d => u.Same c d ∨ (c, d) ∈ (x, y) :: pairs) c d :=
        fun h => .rel _ _ (.inl h)
      have hxy : Relation.EqvGen (fun c d => u.Same c d ∨ (c, d) ∈ (x, y) :: pairs) x y :=
        .rel _ _ (.inr mem_cons_self)
      rcases hcd with hcd | hcd
      · rcases (hop u x y c d).1 hcd with h | ⟨hc, hd⟩ | ⟨hc, hd⟩
        · exact hold h
        · exact .trans _ _ _ (hold hc) (.trans _ _ _ hxy (.symm _ _ (hold hd)))
        · exact .trans _ _ _ (hold hc) (.trans _ _ _ (.symm _ _ hxy) (.symm _ _ (hold hd)))
      · exact .rel _ _ (.inr (mem_cons_of_mem _ hcd))
    · refine eqvGen_of_le fun c d hcd => .rel _ _ ?_
      rcases hcd with hcd | hcd
      · exact .inl ((hop u x y c d).2 (.inl hcd))
      · rcases mem_cons.1 hcd with heq | hcd
        · obtain ⟨rfl, rfl⟩ := Prod.mk.inj heq
          exact .inl ((hop u c d c d).2 (.inr (.inl ⟨rfl, rfl⟩)))
        · exact .inr hcd

/-- The classes after uniting pairs of single elements. -/
lemma same_foldl_init_iff (hop : ∀ u x y, Merges u (op u x y) x y) (pairs : List (Fin n × Fin n))
    (a b : Fin n) : (pairs.foldl (fun u p => op u p.1 p.2) (init n)).Same a b ↔
      Relation.EqvGen (fun x y => (x, y) ∈ pairs) a b := by
  rw [same_foldl_iff hop]
  constructor
  · refine eqvGen_of_le fun c d hcd => ?_
    rcases hcd with hcd | hcd
    · exact same_init.1 hcd ▸ .refl _
    · exact .rel _ _ hcd
  · exact eqvGen_of_le fun c d hcd => .rel _ _ (.inr hcd)

end UnionFind

/-! ## Ordered maps of vectors -/

namespace KeyedGroups

open List

variable {κ α : Type*} [LinearOrder κ]

/-- `m[k].push_back(a)` on an ordered map of vectors, kept as the list of its entries. -/
def pushBack (k : κ) (a : α) : List (κ × List α) → List (κ × List α)
  | [] => [(k, [a])]
  | e :: m =>
    if k < e.1 then (k, [a]) :: e :: m
    else if k = e.1 then (e.1, e.2 ++ [a]) :: m
    else e :: pushBack k a m

/-- The entries after every element is pushed under its key. -/
def groupBy (key : α → κ) (l : List α) : List (κ × List α) :=
  l.foldl (fun m a => pushBack (key a) a m) []

/-- The entries of an ordered map: keys increase. -/
def Ordered (m : List (κ × List α)) : Prop := m.Pairwise fun e e' => e.1 < e'.1

/-- A push into a map with the vectors `f`, which are empty for the keys that are not there. -/
lemma pushBack_map {f : κ → List α} {keys : List κ} (hkeys : keys.Pairwise (· < ·)) {k : κ} (a : α)
    (hf : k ∉ keys → f k = []) :
    ∃ keys' : List κ, keys'.Pairwise (· < ·) ∧ (∀ j, j ∈ keys' ↔ j = k ∨ j ∈ keys) ∧
      pushBack k a (keys.map fun j => (j, f j)) =
        keys'.map fun j => (j, if j = k then f k ++ [a] else f j) := by
  induction keys with
  | nil => exact ⟨[k], by simp, by simp, by simp [pushBack, hf]⟩
  | cons j keys ih =>
    obtain ⟨hhead, htail⟩ := pairwise_cons.1 hkeys
    have hkeep (hk : k ∉ keys) : keys.map (fun j => (j, if j = k then f k ++ [a] else f j)) =
        keys.map fun j => (j, f j) :=
      map_congr_left fun i hi => by rw [if_neg (ne_of_mem_of_not_mem hi hk)]
    rw [map_cons, pushBack]
    split_ifs with hlt heq
    · have hk : k ∉ j :: keys := not_mem_cons_of_ne_of_not_mem hlt.ne fun h =>
        (hhead k h).not_gt hlt
      refine ⟨k :: j :: keys, pairwise_cons.2 ⟨forall_mem_cons.2 ⟨hlt, fun i hi =>
        hlt.trans (hhead i hi)⟩, hkeys⟩, by simp, ?_⟩
      rw [map_cons, map_cons, hkeep fun h => hk (mem_cons_of_mem j h)]
      simp [hf hk, hlt.ne']
    · dsimp only at heq
      subst heq
      refine ⟨k :: keys, hkeys, by simp, ?_⟩
      simp [hkeep fun h => (hhead k h).false]
    · obtain ⟨keys', hkeys', hmem, hpush⟩ := ih htail fun h => hf (by simp [heq, h])
      refine ⟨j :: keys', pairwise_cons.2 ⟨fun i hi => ?_, hkeys'⟩, ?_, ?_⟩
      · rcases (hmem i).1 hi with rfl | hi
        · exact lt_of_le_of_ne (not_lt.1 hlt) (Ne.symm heq)
        · exact hhead i hi
      · simp [hmem, or_left_comm]
      · simp [hpush, Ne.symm heq]

lemma groupBy_eq_map (key : α → κ) (l : List α) : ∃ keys : List κ, keys.Pairwise (· < ·) ∧
    (∀ k, k ∈ keys ↔ ∃ a ∈ l, key a = k) ∧
    groupBy key l = keys.map fun k => (k, l.filter fun a => key a = k) := by
  induction l using reverseRecOn with
  | nil => exact ⟨[], by simp [groupBy]⟩
  | append_singleton l a ih =>
    obtain ⟨keys, hkeys, hmem, hgroups⟩ := ih
    obtain ⟨keys', hkeys', hmem', hpush⟩ := pushBack_map (k := key a) hkeys a
      (f := fun k => l.filter fun a => key a = k) (by simp [hmem])
    refine ⟨keys', hkeys', fun k => ?_, ?_⟩
    · simp [hmem', hmem, or_and_right, exists_or, or_comm, eq_comm]
    · rw [groupBy, foldl_append]
      exact (congrArg _ hgroups).trans (hpush.trans (map_congr_left fun k _ => by
        rcases eq_or_ne k (key a) with rfl | hk
        · simp
        · simp [hk, hk.symm]))

/-- The groups are the classes of the elements under the key, in the order of the list. -/
lemma groupBy_spec (key : α → κ) (l : List α) : Ordered (groupBy key l) ∧
    ∀ e, e ∈ groupBy key l ↔ e.2 = l.filter (fun a => key a = e.1) ∧ e.2 ≠ [] := by
  obtain ⟨keys, hkeys, hmem, heq⟩ := groupBy_eq_map key l
  rw [heq]
  refine ⟨pairwise_map.2 hkeys, fun ⟨k, g⟩ => ?_⟩
  have hkey : k ∈ keys ↔ l.filter (fun a => key a = k) ≠ [] := by simp [hmem]
  rw [mem_map]
  constructor
  · rintro ⟨k, hk, ⟨⟩⟩
    exact ⟨rfl, hkey.1 hk⟩
  · rintro ⟨hg, hne⟩
    exact ⟨k, hkey.2 (hg ▸ hne), Prod.ext rfl hg.symm⟩

end KeyedGroups

namespace UnionFind

open List

variable {n : ℕ}

/-- Every element is pushed under the root `find` returns for it. -/
def collect (u : UnionFind n) (l : List (Fin n)) : List (Fin n × List (Fin n)) :=
  (l.foldl (fun s x => ((s.1.find x).1, KeyedGroups.pushBack (s.1.find x).2 x s.2)) (u, [])).2

section

variable (u : UnionFind n) (l : List (Fin n))

include u l

lemma collect_eq : u.collect l = KeyedGroups.groupBy u.root l := by
  unfold collect KeyedGroups.groupBy
  -- `find` compresses paths on the way and leaves the roots
  suffices h : ∀ (v : UnionFind n) m, (∀ z, v.root z = u.root z) →
      (l.foldl (fun s x => ((s.1.find x).1, KeyedGroups.pushBack (s.1.find x).2 x s.2)) (v, m)).2 =
        l.foldl (fun m x => KeyedGroups.pushBack (u.root x) x m) m from h u [] fun _ => rfl
  induction l with
  | nil => exact fun v m _ => rfl
  | cons x l ih =>
    intro v m hv
    rw [foldl_cons, foldl_cons, ih _ _ fun z => by rw [root_find, hv]]
    simp only [find_snd, hv]

lemma mem_collect (e : Fin n × List (Fin n)) :
    e ∈ u.collect l ↔ e.2 = l.filter (fun x => u.root x = e.1) ∧ e.2 ≠ [] := by
  rw [collect_eq]
  exact (KeyedGroups.groupBy_spec u.root l).2 e

lemma collect_pairwise : (u.collect l).Pairwise fun e e' => e.1 < e'.1 := by
  rw [collect_eq]
  exact (KeyedGroups.groupBy_spec u.root l).1

end

variable {l : List (Fin n)}

/-- A collected group is the class of each of its members, in the order of the list. -/
lemma mem_group_iff {u : UnionFind n} {e : Fin n × List (Fin n)} (he : e ∈ u.collect l)
    {x : Fin n} (hx : x ∈ e.2) (y : Fin n) : y ∈ e.2 ↔ y ∈ l ∧ u.Same x y := by
  obtain ⟨hfilter, -⟩ := (u.mem_collect l e).1 he
  have hroot : ∀ z, z ∈ e.2 ↔ z ∈ l ∧ u.root z = e.1 := fun z => by
    rw [hfilter, mem_filter, decide_eq_true_iff]
  rw [hroot, Same, ((hroot x).1 hx).2]
  exact and_congr_right fun _ => eq_comm

lemma exists_group {u : UnionFind n} {x : Fin n} (hx : x ∈ l) : ∃ e ∈ u.collect l, x ∈ e.2 := by
  have hmem : x ∈ l.filter (fun y => u.root y = u.root x) := mem_filter.2 ⟨hx, by simp⟩
  exact ⟨(u.root x, _), (u.mem_collect l _).2 ⟨rfl, ne_nil_of_mem hmem⟩, hmem⟩

/-- The groups together hold each element once. -/
lemma flatten_collect_perm (u : UnionFind n) (hl : l.Nodup) :
    ((u.collect l).map Prod.snd).flatten.Perm l := by
  have hroot : ∀ e ∈ u.collect l, ∀ x ∈ e.2, x ∈ l ∧ u.root x = e.1 := by
    intro e he x hx
    rw [((u.mem_collect l e).1 he).1, mem_filter, decide_eq_true_iff] at hx
    exact hx
  refine (perm_ext_iff_of_nodup (nodup_flatten.2 ⟨?_, ?_⟩) hl).2 fun x => ?_
  · intro group hgroup
    obtain ⟨e, he, rfl⟩ := mem_map.1 hgroup
    rw [((u.mem_collect l e).1 he).1]
    exact hl.filter _
  · refine pairwise_map.2 ((u.collect_pairwise l).imp_of_mem ?_)
    intro e e' he he' hlt x hx hx'
    have heq : e.1 = e'.1 := ((hroot e he x hx).2).symm.trans (hroot e' he' x hx').2
    exact hlt.ne heq
  · constructor
    · intro hx
      obtain ⟨group, hgroup, hmem⟩ := mem_flatten.1 hx
      obtain ⟨e, he, rfl⟩ := mem_map.1 hgroup
      exact (hroot e he x hmem).1
    · intro hx
      obtain ⟨e, he, hmem⟩ := exists_group (u := u) hx
      exact mem_flatten.2 ⟨e.2, mem_map.2 ⟨e, he, rfl⟩, hmem⟩

end UnionFind
