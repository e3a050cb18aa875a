import BucketLSM.Compaction.Picker
import BucketLSM.Lib.UnionFind

/-!
# Groups of overlapping level-0 files

Two places group the level-0 files that are not being compacted: `PickFileToCompact` joins
files whose user-key ranges overlap, `FindL0OverlappingGroups` files whose internal-key
ranges do. Both groupings are the classes of the overlaps.
-/

namespace BucketLSM

open List UnionFind

/-- An order of elements the standard library leaves open: that of an `unordered_map`, or of
elements `std::sort` compares equal. -/
structure Shuffle where
  run : {α : Type} → List α → List α
  perm : ∀ {α : Type} (l : List α), (run l).Perm l

/-- `std::sort`, whatever it does with elements neither of which comes before the other. -/
def Shuffle.stdSort {α : Type} (sh : Shuffle) (before : α → α → Bool) (l : List α) : List α :=
  (sh.run l).insertionSort fun a b => ¬ before b a

/-- Sorting keeps the elements. -/
lemma Shuffle.mem_stdSort {α : Type} (sh : Shuffle) (before : α → α → Bool) (l : List α)
    (a : α) : a ∈ sh.stdSort before l ↔ a ∈ l := by
  unfold stdSort
  rw [mem_insertionSort]
  exact (sh.perm l).mem_iff

/-- Sorted by a key, no element comes before one with a smaller key. -/
lemma Shuffle.pairwise_stdSort {α β : Type} [LinearOrder β] (sh : Shuffle) (key : α → β)
    (l : List α) : (sh.stdSort (fun a b => key a < key b) l).Pairwise fun a b => key a ≤ key b := by
  have hrel : ∀ a b : α, ¬ decide (key b < key a) = true ↔ key a ≤ key b := by simp
  have : Std.Total fun a b : α => ¬ decide (key b < key a) = true :=
    ⟨fun a b => by simpa only [hrel] using le_total (key a) (key b)⟩
  have : IsTrans α fun a b : α => ¬ decide (key b < key a) = true :=
    ⟨fun a b c => by simpa only [hrel] using le_trans⟩
  exact (pairwise_insertionSort _ _).imp fun h => (hrel _ _).1 h

/-- The pairs of a list, in the order of two nested loops. -/
def orderedPairs {α : Type} : List α → List (α × α)
  | [] => []
  | x :: l => l.map (fun y => (x, y)) ++ orderedPairs l

/-- The nested loops meet each pair once, the smaller index first. -/
lemma mem_orderedPairs {n : ℕ} {l : List (Fin n)} (hl : l.Pairwise (· < ·)) (x y : Fin n) :
    (x, y) ∈ orderedPairs l ↔ x ∈ l ∧ y ∈ l ∧ x < y := by
  induction l with
  | nil => simp [orderedPairs]
  | cons z l ih =>
    obtain ⟨hhead, htail⟩ := pairwise_cons.1 hl
    simp only [orderedPairs, mem_append, mem_map, Prod.mk.injEq, ih htail, mem_cons]
    constructor
    · rintro (⟨y', hy', rfl, rfl⟩ | ⟨hx, hy, hlt⟩)
      · exact ⟨.inl rfl, .inr hy', hhead _ hy'⟩
      · exact ⟨.inr hx, .inr hy, hlt⟩
    · rintro ⟨rfl | hx, rfl | hy, hlt⟩
      · exact absurd hlt (lt_irrefl _)
      · exact .inl ⟨y, hy, rfl, rfl⟩
      · exact absurd hlt (not_lt.2 (hhead x hx).le)
      · exact .inr ⟨hx, hy, hlt⟩

variable {K : Type} [LinearOrder K]

/-! ### Grouping by union-find -/

/-- `active_indices`: the indices of the files that are not being compacted. -/
def activeIndices (l0 : List (FileMetaData K)) : List (Fin l0.length) :=
  (List.finRange l0.length).filter fun i => !(l0.get i).beingCompacted

/-- The active files, united whenever two of them overlap and collected by root. -/
def groupFiles (union : {n : ℕ} → UnionFind n → Fin n → Fin n → UnionFind n)
    (overlaps : FileMetaData K → FileMetaData K → Bool) (l0 : List (FileMetaData K)) :
    List (List (FileMetaData K)) :=
  let united := ((orderedPairs (activeIndices l0)).filter fun p =>
    overlaps (l0.get p.1) (l0.get p.2)).foldl (fun u p => union u p.1 p.2)
      (UnionFind.init l0.length)
  (united.collect (activeIndices l0)).map fun e => e.2.map l0.get

/-- The groups of `PickFileToCompact`, by the user keys of the files. -/
def pickGroups (l0 : List (FileMetaData K)) : List (List (FileMetaData K)) :=
  groupFiles UnionFind.unionSets (fun f g => !(f.largest.userKey < g.smallest.userKey ||
    g.largest.userKey < f.smallest.userKey)) l0

/-- `FindL0OverlappingGroups`, by the internal keys of the files, largest group first. -/
def findL0OverlappingGroups (sh : Shuffle) (l0 : List (FileMetaData K)) :
    List (List (FileMetaData K)) :=
  sh.stdSort (fun a b => totalFileSize b < totalFileSize a)
    (groupFiles UnionFind.unite (fun f g => g.smallest ≤ f.largest && f.smallest ≤ g.largest) l0)

/-! ### The groups are the classes of the overlaps -/

/-- A file of the list that is not being compacted. -/
def ActiveIn (l0 : List (FileMetaData K)) (f : FileMetaData K) : Prop :=
  f ∈ l0 ∧ f.beingCompacted = false

/-- A chain of active files, each overlapping the next, leads from one file to the other. -/
def Connected (l0 : List (FileMetaData K)) (overlaps : FileMetaData K → FileMetaData K → Prop) :
    FileMetaData K → FileMetaData K → Prop :=
  Relation.EqvGen fun f g => ActiveIn l0 f ∧ ActiveIn l0 g ∧ overlaps f g

variable {l0 : List (FileMetaData K)}

/-- The active indices are those of the free files. -/
lemma mem_activeIndices {i : Fin l0.length} :
    i ∈ activeIndices l0 ↔ (l0.get i).beingCompacted = false := by
  simp [activeIndices]

/-- They are in increasing order. -/
lemma activeIndices_pairwise (l0 : List (FileMetaData K)) : (activeIndices l0).Pairwise (· < ·) :=
  (pairwise_lt_finRange _).sublist filter_sublist

/-- The file at an active index is active. -/
lemma ActiveIn.of_index {i : Fin l0.length} (h : i ∈ activeIndices l0) : ActiveIn l0 (l0.get i) :=
  ⟨get_mem l0 i, mem_activeIndices.1 h⟩

/-- An active file is at an active index. -/
lemma ActiveIn.exists_index {f : FileMetaData K} (h : ActiveIn l0 f) :
    ∃ i ∈ activeIndices l0, l0.get i = f := by
  obtain ⟨i, rfl⟩ := get_of_mem h.1
  exact ⟨i, mem_activeIndices.2 h.2, rfl⟩

/-- Chains lead through active files only. -/
lemma Connected.active_iff {overlaps : FileMetaData K → FileMetaData K → Prop}
    {f g : FileMetaData K} (h : Connected l0 overlaps f g) : ActiveIn l0 f ↔ ActiveIn l0 g := by
  induction h with
  | rel f g h => exact ⟨fun _ => h.2.1, fun _ => h.1⟩
  | refl f => exact Iff.rfl
  | symm f g _ ih => exact ih.symm
  | trans f g h _ _ ih ih' => exact ih.trans ih'

section Classes

variable {union : {n : ℕ} → UnionFind n → Fin n → Fin n → UnionFind n}
  {overlaps : FileMetaData K → FileMetaData K → Bool} {l0 : List (FileMetaData K)}

/-- After all unions two indices have the same root exactly if a chain leads from file to file. -/
lemma same_united_iff (hunion : ∀ {n : ℕ} (u : UnionFind n) x y, u.Merges (union u x y) x y)
    (hsymm : ∀ f g, overlaps f g → overlaps g f) (hrefl : ∀ f, overlaps f f)
    {i j : Fin l0.length} (hi : i ∈ activeIndices l0) (hj : j ∈ activeIndices l0) :
    (((orderedPairs (activeIndices l0)).filter fun p =>
      overlaps (l0.get p.1) (l0.get p.2)).foldl (fun u p => union u p.1 p.2)
        (UnionFind.init l0.length)).Same i j ↔
      Connected l0 (fun f g => overlaps f g) (l0.get i) (l0.get j) := by
  rw [same_foldl_init_iff hunion]
  have hpair : ∀ x y, (x, y) ∈ (orderedPairs (activeIndices l0)).filter
      (fun p => overlaps (l0.get p.1) (l0.get p.2)) ↔
        x ∈ activeIndices l0 ∧ y ∈ activeIndices l0 ∧ x < y ∧ overlaps (l0.get x) (l0.get y) := by
    intro x y
    rw [mem_filter, mem_orderedPairs (activeIndices_pairwise l0), and_assoc, and_assoc]
  generalize (orderedPairs (activeIndices l0)).filter
    (fun p => overlaps (l0.get p.1) (l0.get p.2)) = pairs at hpair ⊢
  constructor
  · intro h
    clear hi hj
    induction h with
    | rel x y h =>
      obtain ⟨hx, hy, -, hxy⟩ := (hpair x y).1 h
      exact .rel _ _ ⟨.of_index hx, .of_index hy, hxy⟩
    | refl x => exact .refl _
    | symm x y _ ih => exact .symm _ _ ih
    | trans x y z _ _ ih ih' => exact .trans _ _ _ ih ih'
  · intro h
    have hunited : ∀ x ∈ activeIndices l0, ∀ y ∈ activeIndices l0,
        overlaps (l0.get x) (l0.get y) → Relation.EqvGen (fun x y => (x, y) ∈ pairs) x y := by
      intro x hx y hy hxy
      rcases lt_trichotomy x y with hlt | rfl | hlt
      · exact .rel _ _ ((hpair x y).2 ⟨hx, hy, hlt, hxy⟩)
      · exact .refl _
      · exact .symm _ _ (.rel _ _ ((hpair y x).2 ⟨hy, hx, hlt, hsymm _ _ hxy⟩))
    -- along a chain of files, every choice of indices for them is united
    generalize hf : l0.get i = f at h
    generalize hg : l0.get j = g at h
    induction h generalizing i j with
    | rel f g h => exact hunited i hi j hj (hf ▸ hg ▸ h.2.2)
    | refl f => exact hunited i hi j hj (hf ▸ hg ▸ hrefl f)
    | symm f g _ ih => exact .symm _ _ (ih hj hi hg hf)
    | trans f g h hfg _ ih ih' =>
      obtain ⟨k, hk, hkg⟩ :=
        ((Connected.active_iff hfg).1 (hf ▸ ActiveIn.of_index hi)).exists_index
      exact .trans _ _ _ (ih hi hk hf hkg) (ih' hk hj hkg hg)

variable {f : FileMetaData K} {group : List (FileMetaData K)}

/-- A group consists of the active files that are connected with one of its files. -/
lemma mem_group_iff (hunion : ∀ {n : ℕ} (u : UnionFind n) x y, u.Merges (union u x y) x y)
    (hsymm : ∀ f g, overlaps f g → overlaps g f) (hrefl : ∀ f, overlaps f f)
    (hgroup : group ∈ groupFiles union overlaps l0) (hf : f ∈ group) (g : FileMetaData K) :
    g ∈ group ↔ ActiveIn l0 g ∧ Connected l0 (fun f g => overlaps f g) f g := by
  obtain ⟨e, he, rfl⟩ := mem_map.1 hgroup
  obtain ⟨i, hi, rfl⟩ := mem_map.1 hf
  have hmem := mem_group_iff he hi
  have hactive : i ∈ activeIndices l0 := ((hmem i).1 hi).1
  constructor
  · intro hg
    obtain ⟨j, hj, rfl⟩ := mem_map.1 hg
    obtain ⟨hja, hsame⟩ := (hmem j).1 hj
    exact ⟨.of_index hja, (same_united_iff hunion hsymm hrefl hactive hja).1 hsame⟩
  · rintro ⟨hg, hconn⟩
    obtain ⟨j, hja, rfl⟩ := hg.exists_index
    exact mem_map.2 ⟨j, (hmem j).2 ⟨hja,
      (same_united_iff hunion hsymm hrefl hactive hja).2 hconn⟩, rfl⟩

/-- Every active file is in a group. -/
lemma exists_group (hf : ActiveIn l0 f) : ∃ group ∈ groupFiles union overlaps l0, f ∈ group := by
  obtain ⟨i, hi, rfl⟩ := hf.exists_index
  obtain ⟨e, he, hie⟩ := exists_group (u := ((orderedPairs (activeIndices l0)).filter
    fun p => overlaps (l0.get p.1) (l0.get p.2)).foldl (fun u p => union u p.1 p.2)
      (init l0.length)) hi
  exact ⟨_, mem_map.2 ⟨e, he, rfl⟩, mem_map.2 ⟨i, hie, rfl⟩⟩

/-- The files of a group are active. -/
lemma active_of_mem_group (hgroup : group ∈ groupFiles union overlaps l0) (hf : f ∈ group) :
    ActiveIn l0 f := by
  obtain ⟨e, he, rfl⟩ := mem_map.1 hgroup
  obtain ⟨i, hi, rfl⟩ := mem_map.1 hf
  exact .of_index ((UnionFind.mem_group_iff he hi i).1 hi).1

/-- A group keeps the order of level 0. -/
lemma group_sublist (hgroup : group ∈ groupFiles union overlaps l0) : group.Sublist l0 := by
  obtain ⟨e, he, rfl⟩ := mem_map.1 hgroup
  have hindices : e.2.Sublist (finRange l0.length) := by
    rw [((mem_collect _ _ e).1 he).1]
    exact filter_sublist.trans filter_sublist
  simpa [map_get_finRange] using hindices.map l0.get

/-- No file is in two groups. -/
lemma groups_disjoint (hunion : ∀ {n : ℕ} (u : UnionFind n) x y, u.Merges (union u x y) x y)
    (hsymm : ∀ f g, overlaps f g → overlaps g f) (hrefl : ∀ f, overlaps f f) :
    (groupFiles union overlaps l0).Pairwise List.Disjoint := by
  refine pairwise_map.2 ((collect_pairwise _ _).imp_of_mem ?_)
  intro e e' he he' hroots f hf hf'
  obtain ⟨i, hi, rfl⟩ := mem_map.1 hf
  obtain ⟨j, hj, heq⟩ := mem_map.1 hf'
  obtain ⟨hfilter, -⟩ := (mem_collect _ _ e).1 he
  obtain ⟨hfilter', -⟩ := (mem_collect _ _ e').1 he'
  rw [hfilter, mem_filter, decide_eq_true_iff] at hi
  rw [hfilter', mem_filter, decide_eq_true_iff] at hj
  have hsame := (same_united_iff hunion hsymm hrefl hi.1 hj.1).2 (heq ▸ .refl _)
  rw [Same, hi.2, hj.2] at hsame
  exact absurd hsame hroots.ne

/-- No group is empty. -/
lemma group_ne_nil (hgroup : group ∈ groupFiles union overlaps l0) : group ≠ [] := by
  obtain ⟨e, he, rfl⟩ := mem_map.1 hgroup
  exact fun h => ((mem_collect _ _ e).1 he).2 (map_eq_nil_iff.1 h)

end Classes

/-- The groups are the classes of the overlaps among the active files. -/
structure IsGrouping (l0 : List (FileMetaData K))
    (overlaps : FileMetaData K → FileMetaData K → Prop) (groups : List (List (FileMetaData K))) :
    Prop where
  ne_nil : ∀ group ∈ groups, group ≠ []
  disjoint : groups.Pairwise List.Disjoint
  covers : ∀ f, ActiveIn l0 f → ∃ group ∈ groups, f ∈ group
  mem_iff : ∀ group ∈ groups, ∀ f ∈ group, ∀ g,
    g ∈ group ↔ ActiveIn l0 g ∧ Connected l0 overlaps f g

/-- Union-find over the overlapping pairs finds the classes, for any correct union. -/
lemma isGrouping_groupFiles {union : {n : ℕ} → UnionFind n → Fin n → Fin n → UnionFind n}
    (hunion : ∀ {n : ℕ} (u : UnionFind n) x y, u.Merges (union u x y) x y)
    {overlaps : FileMetaData K → FileMetaData K → Bool}
    {r : FileMetaData K → FileMetaData K → Prop} (hr : ∀ f g, overlaps f g ↔ r f g)
    (hsymm : ∀ f g, r f g → r g f) (hrefl : ∀ f, r f f) (l0 : List (FileMetaData K)) :
    IsGrouping l0 r (groupFiles union overlaps l0) := by
  have hsymm' : ∀ f g, overlaps f g → overlaps g f := fun f g h =>
    (hr g f).2 (hsymm f g ((hr f g).1 h))
  have hrefl' : ∀ f, overlaps f f := fun f => (hr f f).2 (hrefl f)
  refine ⟨fun _ => group_ne_nil, groups_disjoint hunion hsymm' hrefl', fun _ => exists_group, ?_⟩
  intro group hgroup f hf g
  rw [mem_group_iff hunion hsymm' hrefl' hgroup hf]
  simp only [hr]

/-- The groups of `PickFileToCompact` are the classes of the user-key overlaps. -/
lemma isGrouping_pickGroups (l0 : List (FileMetaData K)) :
    IsGrouping l0 FileMetaData.OverlapsUserKeys (pickGroups l0) := by
  refine isGrouping_groupFiles UnionFind.merges_unionSets ?_ (fun _ _ h => h.symm)
    (fun f => ⟨f.userKey_le, f.userKey_le⟩) l0
  intro f g
  simp [FileMetaData.OverlapsUserKeys, and_comm]

/-! ### The overlap depth -/

/-- An `Event` with its key and whether it is an END. The comparator of the source is the
lexicographic order: at one key, START comes before END. -/
abbrev Event (K : Type) : Type := K ×ₗ Bool

/-- The sweep, with `current_depth` and `max_depth`. -/
def sweep : List (Event K) → ℤ → ℤ → ℤ
  | [], _, maxDepth => maxDepth
  | e :: events, currentDepth, maxDepth =>
    if (ofLex e).2 then sweep events (currentDepth - 1) maxDepth
    else sweep events (currentDepth + 1) (max maxDepth (currentDepth + 1))

/-- The events of the files that are not being compacted. -/
def overlapEvents (l0Files : List (FileMetaData K)) : List (Event K) :=
  (l0Files.filter fun f => !f.beingCompacted).flatMap fun f =>
    [toLex (f.smallest.userKey, false), toLex (f.largest.userKey, true)]

/-- `CalculateMaxOverlappingGroupSize`. -/
def calculateMaxOverlappingGroupSize (sh : Shuffle) (l0Files : List (FileMetaData K)) : ℤ :=
  match l0Files with
  | [] => 0
  | [f] => if f.beingCompacted then 0 else 1
  | files =>
    if files.all FileMetaData.beingCompacted then 0
    else sweep (sh.stdSort (fun a b => a < b) (overlapEvents files)) 0 0

end BucketLSM
