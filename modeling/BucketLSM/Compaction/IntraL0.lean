import BucketLSM.Compaction.L0Closure

/-!
# Compactions within level 0 and the search order

A compaction within level 0 replaces its inputs by a file with the least of their epoch
numbers. The inputs are a class of overlapping files that are not being compacted, and a
file outside it may have an epoch number between those of the inputs.
-/

namespace BucketLSM

open FileMetaData List LevelCompactionBuilder

variable {K : Type} [LinearOrder K]

/-- `MinInputFileEpochNumber`, the greatest 64-bit number if there is no file. -/
def minInputFileEpochNumber (inputs : List (CompactionInputFiles K)) : ℕ :=
  ((inputs.flatMap CompactionInputFiles.files).map FileMetaData.epochNumber).min?.getD (2 ^ 64 - 1)

lemma minInputFileEpochNumber_spec (inputs : CompactionInputFiles K) (hne : inputs.files ≠ []) :
    (∃ f ∈ inputs.files, f.epochNumber = minInputFileEpochNumber [inputs]) ∧
    ∀ f ∈ inputs.files, minInputFileEpochNumber [inputs] ≤ f.epochNumber := by
  obtain ⟨m, hm⟩ : ∃ m, (inputs.files.map epochNumber).min? = some m := by
    obtain ⟨f, hf⟩ := exists_mem_of_ne_nil _ hne
    exact Option.isSome_iff_exists.1 (isSome_min?_of_mem (mem_map_of_mem hf))
  obtain ⟨hmem, hle⟩ := min?_eq_some_iff.1 hm
  have heq : minInputFileEpochNumber [inputs] = m := by simp [minInputFileEpochNumber, hm]
  rw [heq]
  exact ⟨mem_map.1 hmem, fun f hf => hle _ (mem_map_of_mem hf)⟩

/-- The file that replaces the inputs is searched after the same files outside them as each
input that shares a user key with the file outside. -/
def KeepsSearchOrder (l0 : Level0 K) (inputs : CompactionInputFiles K) : Prop :=
  ∀ x ∈ l0.files, x ∉ inputs.files → ∀ i ∈ inputs.files, x.OverlapsUserKeys i →
    (i.epochNumber < x.epochNumber ↔ minInputFileEpochNumber [inputs] < x.epochNumber)

instance (l0 : Level0 K) (inputs : CompactionInputFiles K) :
    Decidable (KeepsSearchOrder l0 inputs) :=
  inferInstanceAs (Decidable (∀ x ∈ _, _ → ∀ i ∈ _, _ → _))

/-- `g` is reached from `f` by files that are not being compacted and whose internal-key
ranges overlap. -/
def SameGroup (l0 : List (FileMetaData K)) (f g : FileMetaData K) : Prop :=
  ActiveIn l0 f ∧ ActiveIn l0 g ∧ Connected l0 FileMetaData.OverlapsInternalKeys f g

/-- No file outside a group shares a user key with a file of the group that is no older while
it is newer than another file of the group. -/
def NoFileBetween (l0 : List (FileMetaData K)) : Prop :=
  ∀ i j x, SameGroup l0 i j → x ∈ l0 → ¬ SameGroup l0 i x → x.OverlapsUserKeys i →
    ¬ (j.epochNumber < x.epochNumber ∧ x.epochNumber ≤ i.epochNumber)

variable {f g : FileMetaData K} {group l0 : List (FileMetaData K)} {sh : Shuffle}

/-! ### The groups of `FindL0OverlappingGroups` -/

lemma mem_findL0OverlappingGroups_iff (hgroup : group ∈ findL0OverlappingGroups sh l0)
    (hf : f ∈ group) (g : FileMetaData K) : g ∈ group ↔ SameGroup l0 f g := by
  have hmem := (sh.mem_stdSort _ _ _).1 hgroup
  have hactive := active_of_mem_group hmem hf
  have hoverlaps : ∀ a b : FileMetaData K,
      (decide (b.smallest ≤ a.largest) && decide (a.smallest ≤ b.largest)) = true ↔
        a.OverlapsInternalKeys b := fun a b => by
    simp [OverlapsInternalKeys, and_comm]
  rw [mem_group_iff UnionFind.merges_unite (fun a b h => (hoverlaps b a).2 ((hoverlaps a b).1 h).symm)
    (fun a => (hoverlaps a a).2 ⟨a.smallest_le_largest, a.smallest_le_largest⟩) hmem hf]
  simp only [hoverlaps, SameGroup, hactive, true_and]

lemma exists_mem_findL0OverlappingGroups (sh : Shuffle) (hf : ActiveIn l0 f) :
    ∃ group ∈ findL0OverlappingGroups sh l0, f ∈ group := by
  obtain ⟨group, hgroup, hmem⟩ := exists_group hf
  exact ⟨group, (sh.mem_stdSort _ _ _).2 hgroup, hmem⟩

/-- A group keeps the search order if no file lies between its files. -/
lemma keepsSearchOrder_of_noFileBetween {l0 : Level0 K} (hnone : NoFileBetween l0.files)
    (hgroup : group ∈ findL0OverlappingGroups sh l0.files) : KeepsSearchOrder l0 ⟨0, group⟩ := by
  intro x hx hout i hi hoverlap
  have hclass := mem_findL0OverlappingGroups_iff hgroup hi
  obtain ⟨⟨j, hj, hmin⟩, hle⟩ := minInputFileEpochNumber_spec ⟨0, group⟩ (ne_nil_of_mem hi)
  constructor
  · exact fun hlt => (hle i hi).trans_lt hlt
  · intro hlt
    by_contra hnot
    exact hnone i j x ((hclass j).1 hj) hx (fun h => hout ((hclass x).2 h)) hoverlap
      ⟨hmin ▸ hlt, not_lt.1 hnot⟩

/-! ### Level 0 with other file sizes -/

/-- The file with other sizes, given by file number. -/
def FileMetaData.withSizes (size compensated : ℕ → ℕ) (f : FileMetaData K) : FileMetaData K :=
  { f with fileSize := size f.number, compensatedFileSize := compensated f.number }

/-- Level 0 with other file sizes. Key ranges, epoch numbers and flags stay. -/
def Level0.withSizes (l0 : Level0 K) (size compensated : ℕ → ℕ) : Level0 K where
  files := l0.files.map (FileMetaData.withSizes size compensated)
  newest_first := List.pairwise_map.2 l0.newest_first
  numbers_nodup := by
    rw [List.map_map]
    exact l0.numbers_nodup

/-- Files of level 0 with the same number are the same. -/
lemma Level0.eq_of_number {l0 : Level0 K} (hf : f ∈ l0.files) (hg : g ∈ l0.files)
    (h : f.number = g.number) : f = g :=
  inj_on_of_nodup_map l0.numbers_nodup hf hg h

section Sizes

variable {l0 : Level0 K} {size compensated : ℕ → ℕ}

variable {f : FileMetaData K}

lemma activeIn_withSizes (hf : f ∈ l0.files) :
    ActiveIn (l0.withSizes size compensated).files (f.withSizes size compensated) ↔
      ActiveIn l0.files f :=
  ⟨fun h => ⟨hf, h.2⟩, fun h => ⟨mem_map_of_mem hf, h.2⟩⟩

lemma connected_withSizes {g : FileMetaData K} (hf : ActiveIn l0.files f)
    (hg : ActiveIn l0.files g) :
    Connected (l0.withSizes size compensated).files OverlapsInternalKeys
      (f.withSizes size compensated) (g.withSizes size compensated) ↔
    Connected l0.files OverlapsInternalKeys f g := by
  constructor
  · intro h
    generalize hf' : f.withSizes size compensated = f' at h
    generalize hg' : g.withSizes size compensated = g' at h
    induction h generalizing f g with
    | rel f' g' h =>
      obtain ⟨-, -, hoverlap⟩ := h
      rw [← hf', ← hg'] at hoverlap
      exact .rel _ _ ⟨hf, hg, hoverlap⟩
    | refl f' =>
      have hnumber : (f.withSizes size compensated).number =
          (g.withSizes size compensated).number := by rw [hf', hg']
      exact Level0.eq_of_number hf.1 hg.1 hnumber ▸ .refl f
    | symm f' g' _ ih => exact .symm _ _ (ih hg hf hg' hf')
    | trans f' h' g' hfh _ ih ih' =>
      have hactive := (Connected.active_iff hfh).1 (hf' ▸ (activeIn_withSizes hf.1).2 hf)
      obtain ⟨k, hk, rfl⟩ := mem_map.1 hactive.1
      have hka := (activeIn_withSizes hk).1 hactive
      exact .trans _ _ _ (ih hf hka hf' rfl) (ih' hka hg rfl hg')
  · intro h
    clear hf hg
    induction h with
    | rel f g h =>
      exact .rel _ _ ⟨(activeIn_withSizes h.1.1).2 h.1, (activeIn_withSizes h.2.1.1).2 h.2.1, h.2.2⟩
    | refl f => exact .refl _
    | symm f g _ ih => exact .symm _ _ ih
    | trans f g h _ _ ih ih' => exact .trans _ _ _ ih ih'

lemma sameGroup_withSizes {g : FileMetaData K} (hf : f ∈ l0.files) (hg : g ∈ l0.files) :
    SameGroup (l0.withSizes size compensated).files (f.withSizes size compensated)
      (g.withSizes size compensated) ↔ SameGroup l0.files f g := by
  simp only [SameGroup, activeIn_withSizes hf, activeIn_withSizes hg]
  exact and_congr_right fun hfa => and_congr_right fun hga => connected_withSizes hfa hga

lemma NoFileBetween.withSizes (h : NoFileBetween l0.files) :
    NoFileBetween (l0.withSizes size compensated).files := by
  intro i' j' x' hij hx' hix hoverlap
  obtain ⟨i, hi, rfl⟩ := mem_map.1 hij.1.1
  obtain ⟨j, hj, rfl⟩ := mem_map.1 hij.2.1.1
  obtain ⟨x, hx, rfl⟩ := mem_map.1 hx'
  exact h i j x ((sameGroup_withSizes hi hj).1 hij) hx
    (fun hsame => hix ((sameGroup_withSizes hi hx).2 hsame)) hoverlap

end Sizes

/-! ### A pick of a given group -/

/-- The first group of a sorted list with a property is at least as large as any other with
that property. -/
lemma totalFileSize_le_of_find {found : List (FileMetaData K)} {p : List (FileMetaData K) → Bool}
    (hgroup : group ∈ findL0OverlappingGroups sh l0) (hp : p group = true)
    (hfind : (findL0OverlappingGroups sh l0).find? p = some found) :
    totalFileSize group ≤ totalFileSize found := by
  have hsorted : (findL0OverlappingGroups sh l0).Pairwise fun a b =>
      totalFileSize b ≤ totalFileSize a := sh.pairwise_stdSort (fun a => OrderDual.toDual (totalFileSize a)) _
  obtain ⟨-, before, after, heq, hbefore⟩ := find?_eq_some_iff_append.1 hfind
  rw [heq] at hgroup hsorted
  rcases mem_append.1 hgroup with hmem | hmem
  · exact absurd hp (by simpa using hbefore group hmem)
  · rcases mem_cons.1 hmem with rfl | hmem
    · exact le_rfl
    · exact (pairwise_cons.1 (pairwise_append.1 hsorted).2.1).1 group hmem

/-- If a file is larger than all files without it together, the search for a group of two
files that fits finds its group. -/
lemma exists_find_of_dominant (sh : Shuffle) (hsame : SameGroup l0 f g) (hne : f ≠ g)
    (hdominant : ∀ group, group.Sublist l0 → f ∉ group → totalFileSize group < f.fileSize) :
    ∃ group ∈ findL0OverlappingGroups sh l0, f ∈ group ∧
      (findL0OverlappingGroups sh l0).find? (fun group => decide (2 ≤ group.length ∧
        (group.map compensatedFileSize).sum ≤
          (l0.map compensatedFileSize).sum)) = some group := by
  have hsublist : ∀ {group}, group ∈ findL0OverlappingGroups sh l0 → group.Sublist l0 :=
    fun h => group_sublist ((sh.mem_stdSort _ _ _).1 h)
  obtain ⟨own, hown, hf⟩ := exists_mem_findL0OverlappingGroups sh hsame.1
  have hg := (mem_findL0OverlappingGroups_iff hown hf g).2 hsame
  have htwo : 2 ≤ own.length := by
    rcases own with _ | ⟨a, _ | ⟨b, rest⟩⟩
    · exact absurd hf not_mem_nil
    · exact absurd ((mem_singleton.1 hf).trans (mem_singleton.1 hg).symm) hne
    · simp
  have hfits : decide (2 ≤ own.length ∧ (own.map compensatedFileSize).sum ≤
      (l0.map compensatedFileSize).sum) = true :=
    decide_eq_true ⟨htwo, ((hsublist hown).map _).sum_le_sum fun _ _ => Nat.zero_le _⟩
  obtain ⟨found, hfind⟩ : ∃ found, (findL0OverlappingGroups sh l0).find? (fun group =>
      decide (2 ≤ group.length ∧ (group.map compensatedFileSize).sum ≤
        (l0.map compensatedFileSize).sum)) = some found :=
    Option.isSome_iff_exists.1 (find?_isSome.2 ⟨own, hown, hfits⟩)
  have hfound := mem_of_find?_eq_some hfind
  refine ⟨found, hfound, ?_, hfind⟩
  by_contra hnot
  have hlarge : f.fileSize ≤ totalFileSize own := le_sum_of_mem (mem_map_of_mem hf)
  have hle := totalFileSize_le_of_find hown hfits hfind
  exact absurd (hdominant found (hsublist hfound) hnot) (by omega)

/-- Sizes that make one file larger than all others together. -/
def dominantSize (l0 : Level0 K) (f : FileMetaData K) (number : ℕ) : ℕ :=
  if number = f.number then l0.files.length + 1 else 1

/-- The file is larger than any files without it. -/
lemma dominant_withSizes {l0 : Level0 K} (hf : f ∈ l0.files) {compensated : ℕ → ℕ}
    (group : List (FileMetaData K))
    (hgroup : group.Sublist (l0.withSizes (dominantSize l0 f) compensated).files)
    (hnot : f.withSizes (dominantSize l0 f) compensated ∉ group) :
    totalFileSize group < (f.withSizes (dominantSize l0 f) compensated).fileSize := by
  have hone : ∀ n ∈ group.map fileSize, n = 1 := by
    intro n hn
    obtain ⟨h', hh', rfl⟩ := mem_map.1 hn
    obtain ⟨h, hh, rfl⟩ := mem_map.1 (hgroup.subset hh')
    have hnumber : h.number ≠ f.number := fun heq =>
      hnot (Level0.eq_of_number hh hf heq ▸ hh')
    exact if_neg hnumber
  have hsum : totalFileSize group = group.length := by
    rw [totalFileSize, eq_replicate_of_mem hone]
    simp
  have hlen : group.length ≤ l0.files.length := by
    simpa [Level0.withSizes] using hgroup.length_le
  have hsize : (f.withSizes (dominantSize l0 f) compensated).fileSize = l0.files.length + 1 :=
    if_pos rfl
  omega

/-- Level 0 with those sizes, above a base level that is large enough for a compaction within
level 0 to pay. -/
def dominantContext (D : Type) [Double D] (l0 : Level0 K) (f : FileMetaData K) :
    PickContext K D where
  vstorage :=
    let sized := l0.withSizes (dominantSize l0 f) (dominantSize l0 f)
    let l0Size := (sized.files.map FileMetaData.compensatedFileSize).sum
    let multiplier : D := Double.max (Double.lit 10) (Double.lit 10) * Double.ofNat 2
    { level0 := sized
      levels := [[{ f with
        number := sized.freshNumber, fileSize := multiplyCheckOverflow l0Size multiplier + 1 }]]
      baseLevel := 1
      compactionScore := []
      filesByCompactionPri := fun _ => []
      nextCompactionIndex := fun _ => 0
      maxBytesForLevel := fun _ => 0
      marked := ⟨[], [], [], [], []⟩
      numbers_nodup := by
        rw [List.map_append, List.nodup_append]
        refine ⟨sized.numbers_nodup, by simp, ?_⟩
        intro a ha b hb hab
        simp only [List.flatten_cons, List.flatten_nil, List.append_nil, List.map_cons,
          List.map_nil, List.mem_singleton] at hb
        exact sized.freshNumber_notMem (hb ▸ hab ▸ ha)
      marked_active := by simp [MarkedFiles.all] }
  running := []
  mopts := ⟨2, ((l0.withSizes (dominantSize l0 f) (dominantSize l0 f)).files.map
    FileMetaData.compensatedFileSize).sum, Double.lit 10, true, 0⟩
  iopts := ⟨2, true, false, Double.lit 0, .minOverlappingRatio, true, 2, 1⟩
  shuffle := ⟨id, List.Perm.refl⟩
  randomFileIndex := 0

/-- The size-based pick takes the group of the file, if there is another file in it. -/
lemma exists_sizeBasedPick (D : Type) [Double D] {l0 : Level0 K} (hsame : SameGroup l0.files f g)
    (hne : f ≠ g) (b : LevelCompactionBuilder K) :
    ∃ b', LevelCompactionBuilder.pickSizeBasedIntraL0Compaction (dominantContext D l0 f) b =
        some b' ∧ ∀ x ∈ l0.files, x.withSizes (dominantSize l0 f) (dominantSize l0 f) ∈
        b'.startLevelInputs.files ↔ SameGroup l0.files f x := by
  have hf := hsame.1.1
  have hg := hsame.2.1.1
  have hne' : f.withSizes (dominantSize l0 f) (dominantSize l0 f) ≠
      g.withSizes (dominantSize l0 f) (dominantSize l0 f) := fun heq =>
    hne (Level0.eq_of_number hf hg (congrArg number heq :))
  obtain ⟨group, hgroup, hmem, hfind⟩ := exists_find_of_dominant
    (dominantContext D l0 f).shuffle ((sameGroup_withSizes hf hg).2 hsame) hne'
    (dominant_withSizes hf)
  refine ⟨{ b with startLevelInputs := ⟨0, group⟩, outputLevel := 0 }, ?_, fun x hx => ?_⟩
  · have hlen : ¬ (l0.withSizes (dominantSize l0 f) (dominantSize l0 f)).files.length < 2 := by
      have htwo := find?_some hfind
      rw [decide_eq_true_iff] at htwo
      have hle := (group_sublist ((Shuffle.mem_stdSort _ _ _ _).1 hgroup)).length_le
      omega
    unfold pickSizeBasedIntraL0Compaction
    have hmin : (Max.max 2 (dominantContext D l0 f).mopts.level0FileNumCompactionTrigger).toNat =
      2 := rfl
    have hfiles : (dominantContext D l0 f).vstorage.levelFiles 0 =
      (l0.withSizes (dominantSize l0 f) (dominantSize l0 f)).files := rfl
    dsimp only
    rw [hmin, hfiles, if_neg (by simp [dominantContext]), if_neg (by simp [dominantContext]),
      if_neg hlen, if_neg ?_, if_pos (by simp [dominantContext])]
    · exact congrArg (Option.map _) hfind
    · exact not_le.2 (Nat.lt_succ_self _)
  · exact (mem_findL0OverlappingGroups_iff hgroup hmem _).trans (sameGroup_withSizes hf hx)

/-- For a layout of level 0, every compaction within it that is picked in the bucket modes,
whatever the file sizes and the options, keeps the search order exactly if no file lies
between the files of a group. -/
theorem intraL0_keeps_search_order_iff (D : Type) [Double D] (l0 : Level0 K) :
    (∀ (size compensated : ℕ → ℕ) (ctx : PickContext K D) (b b' : LevelCompactionBuilder K),
      ctx.vstorage.level0 = l0.withSizes size compensated → ctx.iopts.useNewFlush ≠ 0 →
      (LevelCompactionBuilder.pickIntraL0Compaction ctx b = some b' ∨
        LevelCompactionBuilder.pickSizeBasedIntraL0Compaction ctx b = some b') →
      KeepsSearchOrder ctx.vstorage.level0 b'.startLevelInputs) ↔ NoFileBetween l0.files := by
  constructor
  · intro hkeeps i j x hsame hx hout hoverlap ⟨hlow, hhigh⟩
    have hne : i ≠ j := fun h => absurd (h ▸ hlow) (not_lt.2 hhigh)
    obtain ⟨b', hpick, hmem⟩ := exists_sizeBasedPick D hsame hne
      (init (dominantContext D l0 i))
    have horder := hkeeps _ _ (dominantContext D l0 i) _ b' rfl (Nat.succ_ne_zero 1) (Or.inr hpick)
      _ (mem_map_of_mem hx) (fun h => hout ((hmem x hx).1 h)) _
      ((hmem i hsame.1.1).2 ⟨hsame.1, hsame.1, .refl _⟩) hoverlap
    have hj := (hmem j hsame.2.1.1).2 hsame
    have hmin := (minInputFileEpochNumber_spec b'.startLevelInputs (ne_nil_of_mem hj)).2 _ hj
    exact absurd (horder.2 (lt_of_le_of_lt hmin hlow)) (not_lt.2 hhigh)
  · intro hnone size compensated ctx b b' hlevel0 hmode hpick
    have hnone' : NoFileBetween ctx.vstorage.level0.files := hlevel0 ▸ hnone.withSizes
    rcases hpick with hpick | hpick
    · obtain ⟨group, hgroup, rfl⟩ := pickIntraL0Compaction_spec hpick
      exact keepsSearchOrder_of_noFileBetween hnone' hgroup
    · obtain ⟨group, hgroup, rfl⟩ := pickSizeBasedIntraL0Compaction_spec hpick
      exact keepsSearchOrder_of_noFileBetween hnone' hgroup

/-- The newest file has new versions of the keys 97 and 98, the oldest one an old version of
97, the one between them an old version of 98. That one meets the newest file only in the
user key 98, where the internal keys do not overlap. -/
def sharedBoundary : PickContext Slice ℚ where
  vstorage :=
    { level0 := ⟨[{ valueFile 4 3 [97] 8 with
          largest := ⟨[98], 9, .value⟩, smallest_le_largest := by decide },
        valueFile 3 2 [98] 3, valueFile 2 1 [97] 1], by decide, by decide⟩
      levels := [[{ valueFile 1 1 [97] 0 with fileSize := 100 }]]
      baseLevel := 1
      compactionScore := [(0, 1)]
      filesByCompactionPri := fun _ => []
      nextCompactionIndex := fun _ => 0
      maxBytesForLevel := fun _ => 0
      marked := ⟨[], [], [], [], []⟩
      numbers_nodup := by decide
      marked_active := by decide }
  running := []
  mopts := ⟨2, 1000, 10, true, 0⟩
  iopts := ⟨2, true, false, 0, .minOverlappingRatio, true, 2, 1⟩
  shuffle := ⟨id, List.Perm.refl⟩
  randomFileIndex := 0

/-- The newest and the oldest file are merged, and the old version of 98 is then found before
the new one. -/
theorem merged_file_falls_behind_older_version :
    ∃ b', LevelCompactionBuilder.pickSizeBasedIntraL0Compaction sharedBoundary
        (LevelCompactionBuilder.init sharedBoundary) = some b' ∧
      sharedBoundary.iopts.useNewFlush ≠ 0 ∧
      ¬ KeepsSearchOrder sharedBoundary.vstorage.level0 b'.startLevelInputs := by
  have hinputs : (pickSizeBasedIntraL0Compaction sharedBoundary
      (init sharedBoundary)).map startLevelInputs =
      some ⟨0, [{ valueFile 4 3 [97] 8 with
        largest := ⟨[98], 9, .value⟩, smallest_le_largest := by decide },
        valueFile 2 1 [97] 1]⟩ := by
    decide +kernel
  obtain ⟨b', hpick, hb'⟩ := Option.map_eq_some_iff.1 hinputs
  refine ⟨b', hpick, by decide, ?_⟩
  rw [hb']
  decide +kernel

end BucketLSM
