import BucketLSM.Compaction.PickSpec

/-!
# Compactions out of level 0 and the older files they leave

Level 0 is searched from newer to older files, and before the levels below it. A compaction
that moves a file down without an older file that shares user keys with it puts new versions
under old ones. `L0Closed` says that no such file is left behind.
-/

namespace BucketLSM

open List Compaction VersionStorageInfo FileMetaData

variable {K : Type} [LinearOrder K]

/-- The input files of a level. -/
def Compaction.inputFiles (c : Compaction K) (level : ℕ) : List (FileMetaData K) :=
  (c.inputs.filter fun i => i.level = level).flatMap CompactionInputFiles.files

variable {f : FileMetaData K} {level : ℕ} {i : CompactionInputFiles K}
  {inputs : List (CompactionInputFiles K)} {running : List (Compaction K)} {D : Type}

/-- Each level-0 file that is older than an input from level 0 and overlaps its user-key
range is an input as well. -/
def Compaction.L0Closed (l0 : Level0 K) (c : Compaction K) : Prop :=
  ∀ f ∈ c.inputFiles 0, ∀ x ∈ l0.files, x.epochNumber < f.epochNumber → x.OverlapsUserKeys f →
    x ∈ c.inputFiles 0

instance (l0 : Level0 K) (c : Compaction K) : Decidable (c.L0Closed l0) :=
  inferInstanceAs (Decidable (∀ f ∈ _, ∀ x ∈ _, _ → _ → _))

/-! ### The range of the inputs -/

/-- The second range lies within the first. -/
def Spans (r r' : InternalKey K × InternalKey K) : Prop := r.1 ≤ r'.1 ∧ r'.2 ≤ r.2

/-- Ranges within ranges. -/
lemma Spans.trans {r₁ r₂ r₃ : InternalKey K × InternalKey K} (h : Spans r₁ r₂)
    (h' : Spans r₂ r₃) : Spans r₁ r₃ := ⟨h.1.trans h'.1, h'.2.trans h.2⟩

/-- The range of a file. -/
def FileMetaData.range (f : FileMetaData K) : InternalKey K × InternalKey K :=
  (f.smallest, f.largest)

/-- The common range spans the one it extends. -/
lemma spans_spanRange_left (r r' : InternalKey K × InternalKey K) :
    Spans (spanRange (some r) r') r := by
  simp only [spanRange, Spans]
  constructor <;> split_ifs with h <;> first | exact h.le | exact le_rfl

/-- It spans the one it is extended by. -/
lemma spans_spanRange_right (r : Option (InternalKey K × InternalKey K))
    (r' : InternalKey K × InternalKey K) : Spans (spanRange r r') r' := by
  rcases r with _ | r
  · exact ⟨le_rfl, le_rfl⟩
  · simp only [spanRange, Spans]
    constructor <;> split_ifs with h <;> first | exact le_rfl | exact not_lt.1 h

/-- The fold of `hull` is a fold of `spanRange`. -/
lemma hull_cons (f : FileMetaData K) (fs : List (FileMetaData K)) :
    hull (f :: fs) = some (fs.foldl (fun r g => spanRange (some r) g.range) f.range) := rfl

/-- A range extended by all elements of a list spans each of them. -/
lemma spans_foldl_spanRange {α : Type} (range : α → InternalKey K × InternalKey K)
    (l : List α) (r : InternalKey K × InternalKey K) :
    Spans (l.foldl (fun r a => spanRange (some r) (range a)) r) r ∧
    ∀ a ∈ l, Spans (l.foldl (fun r a => spanRange (some r) (range a)) r) (range a) := by
  induction l generalizing r with
  | nil => exact ⟨⟨le_rfl, le_rfl⟩, fun a ha => absurd ha not_mem_nil⟩
  | cons b l ih =>
    obtain ⟨hacc, hmem⟩ := ih (spanRange (some r) (range b))
    refine ⟨hacc.trans (spans_spanRange_left _ _), fun a ha => ?_⟩
    rcases mem_cons.1 ha with rfl | ha
    · exact hacc.trans (spans_spanRange_right _ _)
    · exact hmem a ha

/-- The hull of some files spans each of them. -/
lemma exists_hull_of_mem {files : List (FileMetaData K)} (hf : f ∈ files) :
    ∃ r, hull files = some r ∧ Spans r f.range := by
  cases files with
  | nil => exact absurd hf not_mem_nil
  | cons g gs =>
    obtain ⟨hacc, hmem⟩ := spans_foldl_spanRange range gs g.range
    refine ⟨_, hull_cons g gs, ?_⟩
    rcases mem_cons.1 hf with rfl | hf
    · exact hacc
    · exact hmem f hf

/-- The range of several levels spans that of each of them. -/
lemma exists_getRangeOfLevels_of_mem (hi : i ∈ inputs) {r : InternalKey K × InternalKey K}
    (hr : getRange i = some r) : ∃ r', getRangeOfLevels none inputs = some r' ∧ Spans r' r := by
  -- a range once found is only widened by the levels that follow
  have hkeep : ∀ (rest : List (CompactionInputFiles K)) (r₀ : InternalKey K × InternalKey K),
      Spans r₀ r → ∃ r', rest.foldl (widenRange none) (some r₀) = some r' ∧ Spans r' r := by
    intro rest
    induction rest with
    | nil => exact fun r₀ h => ⟨r₀, rfl, h⟩
    | cons j rest ih =>
      intro r₀ h
      rw [foldl_cons, widenRange, if_neg (by simp)]
      cases getRange j with
      | none => exact ih r₀ h
      | some r₁ => exact ih _ ((spans_spanRange_left r₀ r₁).trans h)
  obtain ⟨before, rest, rfl⟩ := append_of_mem hi
  unfold getRangeOfLevels
  rw [foldl_append, foldl_cons, widenRange, if_neg (by simp), hr]
  exact hkeep rest _ (spans_spanRange_right _ _)

/-! ### Conflicts of wider ranges -/

/-- A wider range meets all that a narrower one meets. -/
lemma meetsRange_mono {a b a' b' : K} (ha : a' ≤ a) (hb : b ≤ b') {range : Option (K × K)}
    (h : meetsRange a b range = true) : meetsRange a' b' range = true := by
  cases range with
  | none => exact h
  | some r =>
    simp only [meetsRange, decide_eq_true_eq] at h ⊢
    exact ⟨ha.trans h.1, h.2.trans hb⟩

/-- A wider range conflicts with all compactions that a narrower one conflicts with. -/
lemma rangeOverlapWithCompaction_mono {a b a' b' : K} (ha : a' ≤ a) (hb : b ≤ b')
    (h : rangeOverlapWithCompaction running a b level = true) :
    rangeOverlapWithCompaction running a' b' level = true := by
  simp only [rangeOverlapWithCompaction, any_eq_true, Bool.or_eq_true, Bool.and_eq_true] at h ⊢
  obtain ⟨c, hc, h⟩ := h
  exact ⟨c, hc, h.imp (.imp_right (meetsRange_mono ha hb)) (.imp_right (meetsRange_mono ha hb))⟩

/-- A level-0 input whose range conflicts with a running compaction keeps the whole
compaction from being picked. -/
lemma filesRangeOverlapWithCompaction_of_mem (proximal : Option ℕ) (hi : i ∈ inputs)
    (hlevel : i.level = 0) (hf : f ∈ i.files)
    (h : rangeOverlapWithCompaction running f.smallest.userKey f.largest.userKey level = true) :
    filesRangeOverlapWithCompaction running inputs level proximal = true := by
  obtain ⟨r, hr, hspans⟩ := exists_hull_of_mem hf
  have hrange : getRange i = some r := by rw [getRange, if_pos hlevel, hr]
  obtain ⟨r', hr', hspans'⟩ := exists_getRangeOfLevels_of_mem hi hrange
  have hwide := hspans'.trans hspans
  have hconflict := rangeOverlapWithCompaction_mono (InternalKey.userKey_le hwide.1)
    (InternalKey.userKey_le hwide.2) h
  simp [filesRangeOverlapWithCompaction, hr', hconflict]

/-! ### Closed picks -/

/-- A trivial move takes a run of files from the oldest one on. -/
lemma LevelCompactionBuilder.trivialMoveLoop_append (vs : VersionStorageInfo K D)
    (outputLevel : ℕ) (range : Option (InternalKey K × InternalKey K))
    (files : List (FileMetaData K)) :
    ∃ rest, files = trivialMoveLoop vs outputLevel range files ++ rest := by
  induction files generalizing range with
  | nil => exact ⟨[], rfl⟩
  | cons f files ih =>
    rw [trivialMoveLoop]
    split
    · exact ⟨_, rfl⟩
    · rename_i r _
      split_ifs
      · obtain ⟨rest, hrest⟩ := ih (some r)
        exact ⟨rest, congrArg (f :: ·) hrest⟩
      · exact ⟨_, rfl⟩

/-- A file older than one that a trivial move takes is taken too. -/
lemma LevelCompactionBuilder.mem_trivialMoveLoop_of_older {vs : VersionStorageInfo K D}
    {outputLevel : ℕ} {x : FileMetaData K}
    (hf : f ∈ trivialMoveLoop vs outputLevel none (vs.levelFiles 0).reverse)
    (hx : x ∈ vs.levelFiles 0) (holder : x.epochNumber < f.epochNumber) :
    x ∈ trivialMoveLoop vs outputLevel none (vs.levelFiles 0).reverse := by
  obtain ⟨rest, hrest⟩ := trivialMoveLoop_append vs outputLevel none (vs.levelFiles 0).reverse
  have hage : (vs.levelFiles 0).reverse.Pairwise fun a b => a.epochNumber ≤ b.epochNumber :=
    pairwise_reverse.2 vs.level0.newest_first
  rw [hrest] at hage
  rw [← mem_reverse, hrest] at hx
  rcases mem_append.1 hx with hx | hx
  · exact hx
  · exact absurd ((pairwise_append.1 hage).2.2 f hf x hx) (not_le.2 holder)

/-- A number no level-0 file has. -/
def Level0.freshNumber (l0 : Level0 K) : ℕ := (l0.files.map FileMetaData.number).sum + 1

/-- The fresh number is above all numbers in use. -/
lemma Level0.freshNumber_notMem (l0 : Level0 K) :
    l0.freshNumber ∉ l0.files.map number := fun hmem => by
  have hle := le_sum_of_mem hmem
  unfold Level0.freshNumber at hle
  omega

/-- The files older than `f` that share user keys with it. -/
def Level0.olderOverlapping (l0 : Level0 K) (f : FileMetaData K) : List (FileMetaData K) :=
  l0.files.filter fun x => x.epochNumber < f.epochNumber ∧ x.OverlapsUserKeys f

/-- The older overlapping files, by their properties. -/
lemma Level0.mem_olderOverlapping {l0 : Level0 K} {x : FileMetaData K} :
    x ∈ l0.olderOverlapping f ↔ x ∈ l0.files ∧ x.epochNumber < f.epochNumber ∧
      x.OverlapsUserKeys f := by
  simp [olderOverlapping]

/-- Closed picks take the older overlapping files of all their inputs. -/
lemma Compaction.l0Closed_iff {l0 : Level0 K} {c : Compaction K} :
    c.L0Closed l0 ↔ ∀ f ∈ c.inputFiles 0, ∀ x ∈ l0.olderOverlapping f, x ∈ c.inputFiles 0 := by
  simp [L0Closed, Level0.mem_olderOverlapping, and_imp]

/-- A group takes exactly the free ones of the files that overlap a member. -/
lemma mem_pickGroup_iff_free {l0 : Level0 K} {group : List (FileMetaData K)}
    {x : FileMetaData K} (hgroup : group ∈ pickGroups l0.files) (hf : f ∈ group)
    (hx : x ∈ l0.olderOverlapping f) : x ∈ group ↔ x.beingCompacted = false := by
  obtain ⟨hmem, -, hoverlap⟩ := Level0.mem_olderOverlapping.1 hx
  have hiff := (isGrouping_pickGroups l0.files).mem_iff group hgroup f hf
  rw [hiff]
  refine ⟨fun h => h.1.2, fun hfree => ⟨⟨hmem, hfree⟩, ?_⟩⟩
  exact .rel _ _ ⟨((hiff f).1 hf).1, ⟨hmem, hfree⟩, hoverlap.symm⟩

/-- The compaction is the trivial move of a version. -/
def LevelCompactionBuilder.IsTrivialMove (ctx : PickContext K D) (c : Compaction K) : Prop :=
  ∀ f, f ∈ c.inputFiles 0 ↔ f ∈ trivialMoveLoop ctx.vstorage ctx.vstorage.baseLevel none
    (ctx.vstorage.levelFiles 0).reverse

/-- The level-0 files of a pick out of level 0. -/
lemma LevelCompactionBuilder.isTrivialMove_or_level0Pick [Double D] {ctx : PickContext K D}
    (hmode : ctx.iopts.useNewFlush ≠ 0) {c : Compaction K} (hpick : (pickCompaction ctx).1 = some c)
    (hstart : c.startLevel = 0) (hout : 1 ≤ c.outputLevel) :
    IsTrivialMove ctx c ∨ Level0Pick ctx c.reason (c.inputFiles 0) := by
  have hpicked := pickedCompaction hmode hpick
  rcases hpicked.level0 hstart (by omega) with ⟨files, hinputs, hmem⟩ | ⟨files, rest, hinputs, h⟩
  · refine .inl fun f => ?_
    simpa [inputFiles, hinputs] using hmem f
  · -- the other inputs are of the output level
    obtain ⟨first, rest', hinputs', -, hrest⟩ := hpicked.inputs
    obtain ⟨rfl, rfl⟩ := List.cons.inj (hinputs.symm.trans hinputs')
    have hother : rest.filter (fun i => decide (i.level = 0)) = [] :=
      filter_eq_nil_iff.2 fun i hi => by
        have := hrest i hi
        simp only [decide_eq_true_eq]
        omega
    have hfiles : c.inputFiles 0 = files := by
      simp [inputFiles, hinputs, hother]
    exact .inr (hfiles.symm ▸ h)

/-- A table file with one value. -/
def valueFile (number epoch : ℕ) (key : Slice) (sequence : ℕ) : FileMetaData Slice where
  number := number
  smallest := ⟨key, sequence, .value⟩
  largest := ⟨key, sequence, .value⟩
  epochNumber := epoch
  fileSize := 1
  compensatedFileSize := 1
  beingCompacted := false
  markedForCompaction := false
  oldestAncesterTime := 0
  fileCreationTime := 0
  largestSeqno := sequence
  smallest_le_largest := le_rfl

/-- Two level-0 files with versions of one key, which a file of level 1 holds too. The score of
level 0 is 1, and no file is marked. -/
def groupedVersions : PickContext Slice ℚ where
  vstorage :=
    { level0 := ⟨[valueFile 3 2 [97] 2, valueFile 2 1 [97] 1], by decide, by decide⟩
      levels := [[valueFile 1 1 [97] 0]]
      baseLevel := 1
      compactionScore := [(0, 1)]
      filesByCompactionPri := fun _ => []
      nextCompactionIndex := fun _ => 0
      maxBytesForLevel := fun _ => 0
      marked := ⟨[], [], [], [], []⟩
      numbers_nodup := by decide
      marked_active := by decide }
  running := []
  mopts := ⟨2, 1000, 10, true, 0⟩
  iopts := ⟨2, true, false, 0, .minOverlappingRatio, true, 2, 1⟩
  shuffle := ⟨id, List.Perm.refl⟩
  randomFileIndex := 0

/-- The compaction of all three versions. -/
def groupedCompaction : Compaction Slice :=
  new groupedVersions.mopts groupedVersions.iopts
    [⟨0, [valueFile 3 2 [97] 2, valueFile 2 1 [97] 1]⟩, ⟨1, [valueFile 1 1 [97] 0]⟩] 1
    .levelL0FilesNum

/-- Two level-0 files with versions of one key, both expired, and a file in level 1. The
expired files are listed as level 0 is, the newer one first. -/
def expiredVersions : PickContext Slice ℚ where
  vstorage :=
    { level0 := ⟨[valueFile 3 2 [97] 2, valueFile 2 1 [97] 1], by decide, by decide⟩
      levels := [[valueFile 1 1 [98] 0]]
      baseLevel := 1
      compactionScore := [(0, 0)]
      filesByCompactionPri := fun _ => []
      nextCompactionIndex := fun _ => 0
      maxBytesForLevel := fun _ => 0
      marked := ⟨[], [], [(0, valueFile 3 2 [97] 2), (0, valueFile 2 1 [97] 1)], [], []⟩
      numbers_nodup := by decide
      marked_active := by decide }
  running := []
  mopts := ⟨4, 1000, 10, true, 0⟩
  iopts := ⟨2, true, false, 0, .minOverlappingRatio, true, 2, 1⟩
  shuffle := ⟨id, List.Perm.refl⟩
  randomFileIndex := 0

end BucketLSM
