import BucketLSM.Compaction.IntraL0

/-!
# The four groupings of level 0

`PickFileToCompact`, `DetectL0GroupBoundaries` and `GetNumGroupsNeedingCompaction` group the
files of level 0 by their user keys, `FindL0OverlappingGroups` by their internal keys. The
first three always find the classes of the user-key overlaps; the last one does exactly if
files that share a user key are also joined by internal-key overlaps.
-/

namespace BucketLSM

open List FileMetaData

variable {K : Type} [LinearOrder K]

/-! ### The functions that group -/

/-- `Compaction::L0GroupBoundary`. -/
structure L0GroupBoundary (K : Type) where
  minKey : K
  maxKey : K
deriving DecidableEq, Repr

/-- The groups `DetectL0GroupBoundaries` forms, by the loop of `PickFileToCompact`. With fewer
than two active files it returns before it forms them. -/
def detectedGroups (l0 : List (FileMetaData K)) : Option (List (List (FileMetaData K))) :=
  if (activeIndices l0).length ≤ 1 then none else some (pickGroups l0)

/-- `DetectL0GroupBoundaries`: the user keys that bound each group, by increasing lower bound. -/
def detectL0GroupBoundaries (sh : Shuffle) (l0 : List (FileMetaData K)) :
    List (L0GroupBoundary K) :=
  match detectedGroups l0 with
  | none => []
  | some groups => (sh.stdSort (fun a b => a.1 < b.1) (groups.filterMap hull)).map fun r =>
      ⟨r.1.userKey, r.2.userKey⟩

section Count

variable {D : Type} [Double D] (disableAutoCompactions : Bool)

/-- The groups `GetNumGroupsNeedingCompaction` forms, by the same loop, unless it returns
before: `score` is the highest score of a level, `CompactionScore(0)`. -/
def countedGroups (useNewFlush : ℕ) (score : D)
    (l0 : List (FileMetaData K)) : Option (List (List (FileMetaData K))) :=
  if disableAutoCompactions ∨ useNewFlush = 0 ∨ Double.lt score (Double.lit 1) ∨
    activeIndices l0 = [] then none
  else some (pickGroups l0)

end Count

/-! ### Groupings as partitions -/

variable {groups : List (List (FileMetaData K))} {l0 : List (FileMetaData K)}
  {r : InternalKey K × InternalKey K}

lemma IsGrouping.stdSort {overlaps : FileMetaData K → FileMetaData K → Prop}
    (h : IsGrouping l0 overlaps groups) (sh : Shuffle)
    (before : List (FileMetaData K) → List (FileMetaData K) → Bool) :
    IsGrouping l0 overlaps (sh.stdSort before groups) := by
  have hperm : (sh.stdSort before groups).Perm groups :=
    (perm_insertionSort _ _).trans (sh.perm groups)
  refine ⟨fun group hgroup => h.ne_nil group (hperm.mem_iff.1 hgroup),
    (hperm.pairwise_iff fun hd => hd.symm).2 h.disjoint, ?_,
    fun group hgroup => h.mem_iff group (hperm.mem_iff.1 hgroup)⟩
  intro f hf
  obtain ⟨group, hgroup, hmem⟩ := h.covers f hf
  exact ⟨group, hperm.mem_iff.2 hgroup, hmem⟩

lemma isGrouping_findL0OverlappingGroups (sh : Shuffle) (l0 : List (FileMetaData K)) :
    IsGrouping l0 OverlapsInternalKeys (findL0OverlappingGroups sh l0) := by
  refine IsGrouping.stdSort (isGrouping_groupFiles UnionFind.merges_unite ?_ (fun _ _ h => h.symm)
    (fun f => ⟨f.smallest_le_largest, f.smallest_le_largest⟩) l0) sh _
  intro f g
  simp [OverlapsInternalKeys, and_comm]

/-! ### The boundaries are ranges apart -/

/-- The file lies below the user keys of the other. -/
def FileMetaData.Below (f x : FileMetaData K) : Prop := f.largest.userKey < x.smallest.userKey

lemma FileMetaData.below_or_below {f x : FileMetaData K} (h : ¬ f.OverlapsUserKeys x) :
    f.Below x ∨ x.Below f := by
  unfold OverlapsUserKeys at h
  rw [not_and_or, not_le, not_le] at h
  exact h.symm

/-- Files of a class lie all below a file that overlaps none of them, or none does. -/
lemma below_iff_of_connected {f g x : FileMetaData K} (hconn : Connected l0 OverlapsUserKeys f g)
    (hapart : ∀ k, Connected l0 OverlapsUserKeys f k → ¬ k.OverlapsUserKeys x) :
    f.Below x ↔ g.Below x := by
  induction hconn with
  | rel f g h =>
    have hf := below_or_below (hapart f (.refl _))
    have hg := below_or_below (hapart g (.rel _ _ h))
    have hx := x.userKey_le
    obtain ⟨hfg, hgf⟩ := h.2.2
    -- a file below `x` and one above it do not overlap
    constructor
    · intro hbelow
      refine hg.resolve_right fun habove => ?_
      exact absurd hgf (not_le.2 ((hbelow.trans_le hx).trans habove))
    · intro hbelow
      refine hf.resolve_right fun habove => ?_
      exact absurd hfg (not_le.2 ((hbelow.trans_le hx).trans habove))
  | refl f => exact Iff.rfl
  | symm f g h ih => exact (ih fun k hk => hapart k (.trans _ _ _ (.symm _ _ h) hk)).symm
  | trans f g k h _ ih ih' =>
    exact (ih hapart).trans (ih' fun i hi => hapart i (.trans _ _ _ h hi))

lemma hull_attained {files : List (FileMetaData K)} (h : hull files = some r) :
    (∃ f ∈ files, f.smallest = r.1) ∧ ∃ f ∈ files, f.largest = r.2 := by
  cases files with
  | nil => cases h
  | cons f fs =>
    rw [hull_cons, Option.some.injEq] at h
    subst h
    induction fs using reverseRecOn with
    | nil => exact ⟨⟨f, by simp, rfl⟩, ⟨f, by simp, rfl⟩⟩
    | append_singleton fs g ih =>
      obtain ⟨⟨a, ha, hsmallest⟩, ⟨b, hb, hlargest⟩⟩ := ih
      have hmem : ∀ k, k ∈ f :: fs → k ∈ f :: (fs ++ [g]) := fun k hk => by
        rw [← cons_append]
        exact mem_append_left _ hk
      have hg : g ∈ f :: (fs ++ [g]) := by simp
      rw [foldl_append, foldl_cons, foldl_nil]
      generalize fs.foldl (fun r g => spanRange (some r) g.range) f.range = r at hsmallest hlargest
      constructor
      · by_cases hlt : g.smallest < r.1
        · exact ⟨g, hg, (if_pos hlt).symm⟩
        · exact ⟨a, hmem a ha, hsmallest.trans (if_neg hlt).symm⟩
      · by_cases hlt : r.2 < g.largest
        · exact ⟨g, hg, (if_pos hlt).symm⟩
        · exact ⟨b, hmem b hb, hlargest.trans (if_neg hlt).symm⟩

/-- Of two classes, the one with the smaller least key lies below the other. -/
lemma IsGrouping.hulls_apart (h : IsGrouping l0 OverlapsUserKeys groups)
    {group group' : List (FileMetaData K)} (hgroup : group ∈ groups) (hgroup' : group' ∈ groups)
    (hdisjoint : group.Disjoint group') {r' : InternalKey K × InternalKey K}
    (hr : hull group = some r) (hr' : hull group' = some r') (hle : r.1 ≤ r'.1) :
    r.2.userKey < r'.1.userKey := by
  obtain ⟨⟨a, ha, hasmallest⟩, ⟨b, hb, hblargest⟩⟩ := hull_attained hr
  obtain ⟨⟨a', ha', hasmallest'⟩, -⟩ := hull_attained hr'
  have hapart : ∀ k, Connected l0 OverlapsUserKeys a k → ¬ k.OverlapsUserKeys a' := by
    intro k hk hoverlap
    have hactive := (h.mem_iff group hgroup a ha a).1 ha
    have hactive' := (h.mem_iff group' hgroup' a' ha' a').1 ha'
    have hkactive := (Connected.active_iff hk).1 hactive.1
    have hmem := (h.mem_iff group hgroup a ha a').2
      ⟨hactive'.1, .trans _ _ _ hk (.rel _ _ ⟨hkactive, hactive'.1, hoverlap⟩)⟩
    exact hdisjoint hmem ha'
  have hconn := ((h.mem_iff group hgroup a ha b).1 hb).2
  have hbelow : a.Below a' := by
    refine (below_or_below (hapart a (.refl _))).resolve_right fun habove => ?_
    have hle' := InternalKey.userKey_le (hasmallest ▸ hasmallest' ▸ hle)
    exact absurd (hle'.trans a'.userKey_le) (not_le.2 habove)
  have := (below_iff_of_connected hconn hapart).1 hbelow
  rwa [Below, hblargest, hasmallest'] at this

/-- The boundaries are reported by increasing keys, and no two of them share a key. -/
theorem detectL0GroupBoundaries_apart (sh : Shuffle) (l0 : List (FileMetaData K)) :
    (detectL0GroupBoundaries sh l0).Pairwise fun a b => a.maxKey < b.minKey := by
  unfold detectL0GroupBoundaries detectedGroups
  split_ifs
  · exact .nil
  have hgroups := isGrouping_pickGroups l0
  refine pairwise_map.2 ?_
  have hhulls : ((pickGroups l0).filterMap hull).Pairwise fun r r' =>
      (r.1 ≤ r'.1 → r.2.userKey < r'.1.userKey) ∧ (r'.1 ≤ r.1 → r'.2.userKey < r.1.userKey) := by
    refine pairwise_filterMap.2 (hgroups.disjoint.imp_of_mem ?_)
    intro group group' hmem hmem' hdisjoint r hr r' hr'
    exact ⟨hgroups.hulls_apart hmem hmem' hdisjoint hr hr',
      hgroups.hulls_apart hmem' hmem hdisjoint.symm hr' hr⟩
  have hsorted := sh.pairwise_stdSort (Prod.fst (α := InternalKey K) (β := InternalKey K))
    ((pickGroups l0).filterMap hull)
  have hperm := (perm_insertionSort (fun a b => ¬ decide (b.1 < a.1)) _).trans
    (sh.perm ((pickGroups l0).filterMap hull))
  have hhulls' := (hperm.pairwise_iff fun h => h.symm).2 hhulls
  exact (hsorted.and hhulls').imp fun h => h.2.1 h.1

/-! ### The groups are a partition into ranges apart -/

/-- The groups together are the active files, each as often as it is in the list. -/
lemma flatten_groupFiles_perm (union : {n : ℕ} → UnionFind n → Fin n → Fin n → UnionFind n)
    (overlaps : FileMetaData K → FileMetaData K → Bool) (l0 : List (FileMetaData K)) :
    (groupFiles union overlaps l0).flatten.Perm (l0.filter fun f => !f.beingCompacted) := by
  have hfiles : l0.filter (fun f => !f.beingCompacted) = (activeIndices l0).map l0.get := by
    conv_lhs => rw [← map_get_finRange l0]
    rw [filter_map]
    rfl
  unfold groupFiles
  simp only
  generalize ((orderedPairs (activeIndices l0)).filter fun p =>
    overlaps (l0.get p.1) (l0.get p.2)).foldl (fun u p => union u p.1 p.2)
      (UnionFind.init l0.length) = united
  have hmap : ((united.collect (activeIndices l0)).map fun e => e.2.map l0.get).flatten =
      ((united.collect (activeIndices l0)).map Prod.snd).flatten.map l0.get := by
    rw [map_flatten, map_map]
    rfl
  rw [hfiles, hmap]
  exact Perm.map _ (united.flatten_collect_perm ((activeIndices_pairwise l0).imp ne_of_lt))

/-- The groups of `PickFileToCompact` are a partition of the files that are not being compacted,
and the user-key ranges they span are apart: no user key is in the ranges of files of two groups. -/
theorem pickGroups_partition (l0 : List (FileMetaData K)) :
    (pickGroups l0).flatten.Perm (l0.filter fun f => !f.beingCompacted) ∧
      (∀ group ∈ pickGroups l0, group ≠ []) ∧
      (pickGroups l0).Pairwise (fun group group' => ∀ r ∈ hull group, ∀ r' ∈ hull group',
        r.2.userKey < r'.1.userKey ∨ r'.2.userKey < r.1.userKey) ∧
      (pickGroups l0).Pairwise (fun group group' => ∀ f ∈ group, ∀ f' ∈ group', ∀ userKey,
        f.smallest.userKey ≤ userKey → userKey ≤ f.largest.userKey →
        ¬ (f'.smallest.userKey ≤ userKey ∧ userKey ≤ f'.largest.userKey)) := by
  have hgroups := isGrouping_pickGroups l0
  have hhulls : (pickGroups l0).Pairwise fun group group' => ∀ r ∈ hull group,
      ∀ r' ∈ hull group', r.2.userKey < r'.1.userKey ∨ r'.2.userKey < r.1.userKey := by
    refine hgroups.disjoint.imp_of_mem ?_
    intro group group' hgroup hgroup' hdisjoint r hr r' hr'
    rcases le_total r.1 r'.1 with hle | hle
    · exact .inl (hgroups.hulls_apart hgroup hgroup' hdisjoint hr hr' hle)
    · exact .inr (hgroups.hulls_apart hgroup' hgroup hdisjoint.symm hr' hr hle)
  refine ⟨flatten_groupFiles_perm _ _ l0, hgroups.ne_nil, hhulls, ?_⟩
  refine (hgroups.disjoint).imp_of_mem ?_
  intro group group' hgroup hgroup' hdisjoint f hf f' hf' userKey hlo hhi hkey
  have hactive := (hgroups.mem_iff group hgroup f hf f).1 hf
  have hactive' := (hgroups.mem_iff group' hgroup' f' hf' f').1 hf'
  -- files with a common user key overlap, so they are in one group
  have hoverlap : f.OverlapsUserKeys f' := ⟨hlo.trans hkey.2, hkey.1.trans hhi⟩
  have hmem := (hgroups.mem_iff group hgroup f hf f').2
    ⟨hactive'.1, .rel _ _ ⟨hactive.1, hactive'.1, hoverlap⟩⟩
  exact hdisjoint hmem hf'

/-! ### Agreement -/

/-- Every grouping that is formed is the partition into classes of user-key overlaps. -/
structure GroupingsAgree (D : Type) [Double D] (l0 : List (FileMetaData K)) : Prop where
  pick : IsGrouping l0 FileMetaData.OverlapsUserKeys (pickGroups l0)
  detect : ∀ groups, detectedGroups l0 = some groups →
    IsGrouping l0 FileMetaData.OverlapsUserKeys groups
  count : ∀ (disableAutoCompactions : Bool) (useNewFlush : ℕ) (score : D) groups,
    countedGroups disableAutoCompactions useNewFlush score l0 = some groups →
      IsGrouping l0 FileMetaData.OverlapsUserKeys groups
  find : ∀ sh, IsGrouping l0 FileMetaData.OverlapsUserKeys (findL0OverlappingGroups sh l0)

/-- Active files that share a user key are joined by a chain of active files whose internal-key
ranges overlap. -/
def JoinedInternally (l0 : List (FileMetaData K)) : Prop :=
  ∀ f g, ActiveIn l0 f → ActiveIn l0 g → f.OverlapsUserKeys g →
    Connected l0 FileMetaData.OverlapsInternalKeys f g

lemma connected_iff_of_joinedInternally (h : JoinedInternally l0) (f g : FileMetaData K) :
    Connected l0 OverlapsInternalKeys f g ↔ Connected l0 OverlapsUserKeys f g := by
  constructor
  · intro hconn
    induction hconn with
    | rel f g hfg => exact .rel _ _ ⟨hfg.1, hfg.2.1, hfg.2.2.overlapsUserKeys⟩
    | refl f => exact .refl _
    | symm f g _ ih => exact .symm _ _ ih
    | trans f g k _ _ ih ih' => exact .trans _ _ _ ih ih'
  · intro hconn
    induction hconn with
    | rel f g hfg => exact h f g hfg.1 hfg.2.1 hfg.2.2
    | refl f => exact .refl _
    | symm f g _ ih => exact .symm _ _ ih
    | trans f g k _ _ ih ih' => exact .trans _ _ _ ih ih'

/-- The groupings agree exactly if files that share a user key are joined internally. -/
theorem groupings_agree_iff (D : Type) [Double D] (l0 : List (FileMetaData K)) :
    GroupingsAgree D l0 ↔ JoinedInternally l0 := by
  constructor
  · intro hagree f g hf hg hoverlap
    have hinternal := isGrouping_findL0OverlappingGroups ⟨id, Perm.refl⟩ l0
    obtain ⟨group, hgroup, hmem⟩ := hinternal.covers f hf
    have huser := (hagree.find ⟨id, Perm.refl⟩).mem_iff group hgroup f hmem g
    have hg' : g ∈ group := huser.2 ⟨hg, .rel _ _ ⟨hf, hg, hoverlap⟩⟩
    exact ((hinternal.mem_iff group hgroup f hmem g).1 hg').2
  · intro hjoined
    refine ⟨isGrouping_pickGroups l0, fun groups h => ?_, fun disable mode score groups h => ?_,
      fun sh => ?_⟩
    · unfold detectedGroups at h
      split at h
      · cases h
      · exact Option.some.inj h ▸ isGrouping_pickGroups l0
    · unfold countedGroups at h
      split at h
      · cases h
      · exact Option.some.inj h ▸ isGrouping_pickGroups l0
    · have hfind := isGrouping_findL0OverlappingGroups sh l0
      refine ⟨hfind.ne_nil, hfind.disjoint, hfind.covers, ?_⟩
      intro group hgroup f hf g
      rw [hfind.mem_iff group hgroup f hf g, connected_iff_of_joinedInternally hjoined]

/-- In `sharedBoundary` the file between the two others meets the newest one in the user key 98.
It is in a group of its own for `FindL0OverlappingGroups` and in theirs for the other three. -/
theorem groupings_split_at_shared_boundary :
    (pickGroups sharedBoundary.vstorage.level0.files).map (List.map FileMetaData.number) =
        [[4, 3, 2]] ∧
      (findL0OverlappingGroups sharedBoundary.shuffle sharedBoundary.vstorage.level0.files).map
        (List.map FileMetaData.number) = [[4, 2], [3]] ∧
      ¬ GroupingsAgree ℚ sharedBoundary.vstorage.level0.files := by
  refine ⟨by decide +kernel, by decide +kernel, fun hagree => ?_⟩
  obtain ⟨group, hgroup, f, hf, g, hg, hgactive, hoverlap, hout⟩ :
      ∃ group ∈ findL0OverlappingGroups sharedBoundary.shuffle
          sharedBoundary.vstorage.level0.files, ∃ f ∈ group,
        ∃ g ∈ sharedBoundary.vstorage.level0.files, g.beingCompacted = false ∧
          f.OverlapsUserKeys g ∧ g ∉ group := by decide +kernel
  have hclass := (hagree.find _).mem_iff group hgroup f hf
  have hf' := ((hclass f).1 hf).1
  exact hout ((hclass g).2 ⟨⟨hg, hgactive⟩, .rel _ _ ⟨hf', ⟨hg, hgactive⟩, hoverlap⟩⟩)

end BucketLSM
