import BucketLSM.Manifest.TableFiles

/-!
# Saving once and saving after every edit

A version is well formed if no file number occurs twice and every level is in its order. `SaveTo`
makes a well-formed version of a well-formed base; its files are those of the table. So a chain of
versions, each built from the one before it by one edit, ends with the files that one builder saves
after all edits, if L0 is ordered in one way all along.
-/

namespace BucketLSM.Manifest

open List Manifest.VersionStorageInfo BucketLSM.Manifest.Rep

variable {K : Type}

/-! ## What is saved in a version -/

namespace Rep

lemma findAdded_isSome_of_mem {l : LevelState K} {f : FileMetaData K} (h : f ∈ l.addedFiles) :
    (l.findAdded f.number).isSome := by
  rw [Option.isSome_iff_ne_none, Ne, findAdded_eq_none]
  push Not
  exact ⟨f, h, rfl⟩

variable {b : Rep K} {level : ℕ}

/-- No file number is saved twice in a level: a file of the base that was added again is not
saved. -/
lemma nodup_saveLevel (inv : FilesInv b) (level : ℕ)
    (cmp : FileMetaData K → FileMetaData K → Bool) :
    ((b.saveLevel level cmp).map FileMetaData.number).Nodup := by
  have hperm : (b.saveLevel level cmp).Perm
      ((((b.base.levelFiles level).map (Prod.mk Origin.base) ++
        (sortFiles cmp (b.levels level).addedFiles).map (Prod.mk Origin.added)).filter
          (b.maybeAddFile level)).map Prod.snd) := by
    rw [saveLevel, mergeUnorderedAddedFilesWithBase, mergeFiles_eq_merge]
    exact ((merge_perm_append _).filter _).map _
  refine (hperm.map _).nodup_iff.2 ?_
  rw [filter_append, map_append, map_append, nodup_append]
  refine ⟨?_, ?_, ?_⟩
  · refine (inv.distinct.level level).sublist (Sublist.map _ ?_)
    refine (filter_sublist.map Prod.snd).trans ?_
    rw [map_map]
    exact (map_id _).symm ▸ Sublist.refl _
  · have hsorted : ((sortFiles cmp (b.levels level).addedFiles).map FileMetaData.number).Nodup :=
      ((perm_insertionSort _ _).map _).nodup_iff.2 (inv.once level)
    refine hsorted.sublist (Sublist.map _ ?_)
    refine (filter_sublist.map Prod.snd).trans ?_
    rw [map_map]
    exact (map_id _).symm ▸ Sublist.refl _
  · intro n hn m hm
    simp only [mem_map, mem_filter, Prod.exists] at hn hm
    obtain ⟨f, ⟨o, f', ⟨⟨x, -, hx⟩, hkept⟩, rfl⟩, rfl⟩ := hn
    obtain ⟨g, ⟨o', g', ⟨⟨y, hy, hy'⟩, -⟩, rfl⟩, rfl⟩ := hm
    cases hx
    cases hy'
    rintro heq
    obtain ⟨-, -, hbase⟩ := maybeAddFile_iff.1 hkept
    have hadded := findAdded_isSome_of_mem ((mem_insertionSort _).1 hy)
    rw [← heq, hbase.resolve_left (by simp)] at hadded
    exact Bool.noConfusion hadded

lemma sorted_saveLevel (inv : FilesInv b) {cmp : FileMetaData K → FileMetaData K → Bool}
    (order : IsFileOrder cmp) (sorted : (b.base.levelFiles level).Pairwise fun f g => cmp f g) :
    (b.saveLevel level cmp).Pairwise fun f g => cmp f g := by
  have hle : (b.saveLevel level cmp).Pairwise fun f g => cmp g f = false :=
    pairwise_map.2 ((sorted_mergeUnorderedAddedFilesWithBase order sorted).sublist filter_sublist)
  have hne := pairwise_map.1 (nodup_saveLevel inv level cmp)
  exact hle.imp₂ (fun f g hfg hnumber => order.connected f g hnumber hfg) hne

/-- The requirement of a version that is saved. -/
def savedRequirement (b : Rep K) : EpochNumberRequirement → EpochNumberRequirement
  | .mightMissing =>
    if (range b.numLevels).any fun level =>
      (b.levels level).addedFiles.any fun f => f.epochNumber = unknownEpochNumber
    then .mightMissing else .mustPresent
  | .mustPresent => .mustPresent

variable [LinearOrder K]

/-- The version that the builder saves. -/
def saveVersion (requirement : EpochNumberRequirement) (b : Rep K) : VersionStorageInfo K :=
  (b.saveTo (.fresh b.numLevels requirement b.base.forceConsistencyChecks)).2

omit [LinearOrder K] in
lemma levelFiles_fresh (numLevels : ℕ) (requirement : EpochNumberRequirement) (force : Bool)
    (level : ℕ) : (fresh numLevels requirement force :
      VersionStorageInfo K).levelFiles level = [] := by
  by_cases h : level < numLevels <;>
    simp [levelFiles, fresh, h]

lemma checkConsistency_fresh (numLevels : ℕ) (requirement : EpochNumberRequirement)
    (force : Bool) : checkConsistency
      (fresh numLevels requirement force : VersionStorageInfo K) = .ok := by
  have hlevels : ∀ n (expected : ExpectedLinkedSsts),
      checkNonzeroLevels (replicate n ([] : List (FileMetaData K))) expected = (.ok, expected) := by
    intro n expected
    induction n with
    | zero => rfl
    | succ n ih =>
      simp [replicate_succ, checkNonzeroLevels, checkConsistencyDetailsForLevel, ih]
  have hchecked : checkConsistencyDetails
      (fresh numLevels requirement force : VersionStorageInfo K) = .ok := by
    cases numLevels with
    | zero => rfl
    | succ n =>
      simp [checkConsistencyDetails, fresh, replicate_succ, checkLevels,
        checkConsistencyDetailsForLevel, hlevels, checkBlobFiles]
  unfold checkConsistency
  split_ifs
  · exact hchecked
  · rfl

omit [LinearOrder K] in
lemma promote_fresh (b : Rep K) (numLevels : ℕ) (force : Bool) :
    b.promoteEpochNumberRequirementIfNeeded (.fresh numLevels .mightMissing force) =
      .fresh numLevels (b.savedRequirement .mightMissing) force := by
  have hmissing : (fresh numLevels .mightMissing force :
      VersionStorageInfo K).hasMissingEpochNumber = false := by
    simp [hasMissingEpochNumber, fresh]
  rw [promoteEpochNumberRequirementIfNeeded, hmissing, if_neg (by simp), savedRequirement]
  split_ifs <;> rfl

lemma saveSSTFilesTo_fresh (b : Rep K) (requirement : EpochNumberRequirement) (force : Bool) :
    b.saveSSTFilesTo (.fresh b.numLevels requirement force) = ⟨(range b.numLevels).map fun level =>
          b.saveLevel level (levelCmp (b.savedRequirement requirement) level),
        [], b.savedRequirement requirement, force⟩ := by
  have hfiles : ∀ v : VersionStorageInfo K,
      v = .fresh b.numLevels (b.savedRequirement requirement) force →
      { v with files := (range b.numLevels).map fun level =>
          v.levelFiles level ++ b.saveLevel level (levelCmp v.epochNumberRequirement level) } =
        (⟨(range b.numLevels).map fun level =>
          b.saveLevel level (levelCmp (b.savedRequirement requirement) level),
          [], b.savedRequirement requirement, force⟩ : VersionStorageInfo K) := by
    rintro v rfl
    simp only [levelFiles_fresh, nil_append]
    rfl
  cases requirement with
  | mustPresent => exact hfiles _ rfl
  | mightMissing => exact hfiles _ (b.promote_fresh b.numLevels force)

omit [LinearOrder K] in
lemma saveBlobFilesTo_files (b : Rep K) (v : VersionStorageInfo K) :
    (b.saveBlobFilesTo v).files = v.files ∧
    (b.saveBlobFilesTo v).epochNumberRequirement = v.epochNumberRequirement ∧
    (b.saveBlobFilesTo v).forceConsistencyChecks = v.forceConsistencyChecks := by
  unfold saveBlobFilesTo
  dsimp only
  split_ifs <;> exact ⟨rfl, rfl, rfl⟩

variable (b) (requirement : EpochNumberRequirement)

lemma saveVersion_files : (b.saveVersion requirement).files = (range b.numLevels).map (fun level =>
      b.saveLevel level (levelCmp (b.savedRequirement requirement) level)) ∧
    (b.saveVersion requirement).epochNumberRequirement = b.savedRequirement requirement ∧
    (b.saveVersion requirement).forceConsistencyChecks = b.base.forceConsistencyChecks := by
  have hsaved : b.saveVersion requirement = b.saveBlobFilesTo
      (b.saveSSTFilesTo (.fresh b.numLevels requirement b.base.forceConsistencyChecks)) := by
    simp only [saveVersion, saveTo, checkConsistency_fresh]
  obtain ⟨hfiles, hrequirement, hforce⟩ := b.saveBlobFilesTo_files
    (b.saveSSTFilesTo (.fresh b.numLevels requirement b.base.forceConsistencyChecks))
  rw [hsaved, hfiles, hrequirement, hforce, saveSSTFilesTo_fresh]
  exact ⟨rfl, rfl, rfl⟩

lemma saveVersion_levelFiles (h : level < b.numLevels) :
    (b.saveVersion requirement).levelFiles level =
      b.saveLevel level (levelCmp (b.savedRequirement requirement) level) := by
  rw [levelFiles, (b.saveVersion_files requirement).1]
  simp [h]

lemma saveVersion_numLevels : (b.saveVersion requirement).numLevels = b.numLevels := by
  rw [VersionStorageInfo.numLevels, (b.saveVersion_files requirement).1]
  simp

lemma saveVersion_levelFiles_of_le (h : b.numLevels ≤ level) :
    (b.saveVersion requirement).levelFiles level = [] := by
  rw [levelFiles, getD_eq_default]
  exact (saveVersion_numLevels b requirement).le.trans h

variable {b}

/-- **What is saved.** The files of a version are those of the table. -/
lemma FilesInv.mem_saveVersion (inv : FilesInv b) {f : FileMetaData K} :
    f ∈ (b.saveVersion requirement).levelFiles level ↔ b.savedTable f.number = some (level, f) := by
  by_cases hlevel : level < b.numLevels
  · rw [saveVersion_levelFiles b requirement hlevel]
    exact inv.mem_saveLevel_iff
  · rw [saveVersion_levelFiles_of_le b requirement (not_lt.1 hlevel)]
    constructor
    · intro hf
      exact absurd hf (by simp)
    · intro hf
      rw [savedTable, Option.filter_eq_some_iff, inv.table_eq_some] at hf
      rcases hf.1 with ⟨-, hbase, -⟩ | ⟨hadded, -⟩
      · exact absurd (lt_of_mem_levelFiles hbase) hlevel
      · exact absurd (inv.added hadded).1 hlevel

/-- Nothing that is saved is on two levels or twice on one. -/
lemma FilesInv.distinct_saveVersion (inv : FilesInv b) : Distinct (b.saveVersion requirement) := by
  refine ⟨fun level => ?_, fun {level level' f g} hf hg hnumber => ?_⟩
  · by_cases hlevel : level < b.numLevels
    · rw [saveVersion_levelFiles b requirement hlevel]
      exact nodup_saveLevel inv level _
    · rw [saveVersion_levelFiles_of_le b requirement (not_lt.1 hlevel)]
      exact nodup_nil
  · rw [inv.mem_saveVersion] at hf hg
    rw [hnumber, hg] at hf
    exact (Prod.mk.inj (Option.some.inj hf)).1.symm

lemma FilesInv.findFile_saveVersion (inv : FilesInv b) :
    (b.saveVersion requirement).findFile = b.savedTable := by
  funext n
  ext ⟨level, f⟩
  rw [(inv.distinct_saveVersion requirement).findFile_eq_some, inv.mem_saveVersion]
  constructor
  · rintro ⟨hf, rfl⟩
    exact hf
  · intro hf
    have hn : f.number = n := by
      rw [savedTable, Option.filter_eq_some_iff, inv.table_eq_some] at hf
      rcases hf.1 with ⟨-, -, hn⟩ | ⟨-, hn⟩ <;> exact hn
    exact ⟨hn ▸ hf, hn⟩

end Rep

/-! ## Versions -/

section Versions

variable [LinearOrder K]

/-- A well-formed version: no file number occurs twice, and every level is in its order. -/
structure IsVersion (v : VersionStorageInfo K) : Prop where
  distinct : Distinct v
  l0 : (v.levelFiles 0).Pairwise fun f g => levelZeroCmp v.epochNumberRequirement f g
  levels : ∀ level, 1 ≤ level → (v.levelFiles level).Pairwise fun f g => bySmallestKey f g

/-- A builder that starts on a version. -/
def Rep.init (handler : FileVerifier K) (track allowIncomplete : Bool)
    (base : VersionStorageInfo K) : Rep K where
  base
  handler
  trackFoundAndMissingFiles := track
  allowIncompleteValidVersion := allowIncomplete

variable {base v : VersionStorageInfo K} {b b' : Rep K}

omit [LinearOrder K] in
lemma Rep.filesInv_init {handler : FileVerifier K} {track allowIncomplete : Bool}
    (distinct : Distinct base) : (init handler track allowIncomplete base).FilesInv :=
  ⟨distinct, by simp [init], by simp [init], by simp [init], by simp [init],
    by simp [init], by simp [init]⟩

lemma Rep.forEach_apply_setup {handler : FileVerifier K} {track allowIncomplete : Bool}
    (distinct : Distinct base) {edits : List (VersionEdit K)}
    (h : forEach apply edits (init handler track allowIncomplete base) = (.ok, b)) :
    b.FilesInv ∧ SameSetup (init handler track allowIncomplete base) b :=
  forEach_keeps (fun s => s.FilesInv ∧ SameSetup (init handler track allowIncomplete base) s) h
    (fun edit _ s s' hs hstep => by
      obtain ⟨⟨hinv, hsetup⟩, -⟩ := apply_table hs.1 hstep
      exact ⟨hinv, hs.2.trans hsetup⟩) ⟨filesInv_init distinct, SameSetup.refl _⟩

variable (handler : FileVerifier K) (track allowIncomplete : Bool)
  (requirement : EpochNumberRequirement)

/-- One builder applies all edits, and the version is saved. -/
def buildOnce (edits : List (VersionEdit K)) (base : VersionStorageInfo K) :
    Status × VersionStorageInfo K :=
  match forEach apply edits (init handler track allowIncomplete base) with
  | (s, b) => (s, b.saveVersion requirement)

/-- A version is saved after every edit, and the next builder starts on it. -/
def buildEach : List (VersionEdit K) → VersionStorageInfo K → Status × VersionStorageInfo K
  | [], v => (.ok, v)
  | edit :: edits, v =>
    match apply edit (init handler track allowIncomplete v) with
    | (.ok, b) => buildEach edits (b.saveVersion requirement)
    | (failed, _) => (failed, v)

/-- The L0 files of the base and of the edits. -/
def InL0 (base : VersionStorageInfo K) (edits : List (VersionEdit K)) (f : FileMetaData K) : Prop :=
  f ∈ base.levelFiles 0 ∨ ∃ edit ∈ edits, (0, f) ∈ edit.newFiles

/-- Every version of the chain has the same requirement: epoch numbers must be present or are
there in every file that is added, or every edit adds a file without one, and no version is
promoted. -/
def NeverChanges (base : VersionStorageInfo K) (edits : List (VersionEdit K)) :
    EpochNumberRequirement → Prop
  | .mustPresent => requirement = .mustPresent ∨
      ∀ edit ∈ edits, ∀ added ∈ edit.newFiles, added.2.epochNumber ≠ unknownEpochNumber
  | .mightMissing => requirement = .mightMissing ∧ edits ≠ [] ∧ ∀ edit ∈ edits,
      ∃ added ∈ edit.newFiles, added.1 < base.numLevels ∧ added.2.epochNumber = unknownEpochNumber

/-- L0 is ordered in one way all along: that of a requirement that never changes, or an order that
is the same for epoch and sequence numbers. -/
def OneOrder (base : VersionStorageInfo K) (edits : List (VersionEdit K)) : Prop :=
  (∃ order, (base.levelFiles 0).Pairwise (fun f g => levelZeroCmp order f g) ∧
    NeverChanges requirement base edits order) ∨
  ∀ f g, InL0 base edits f → InL0 base edits g →
    newestFirstBySeqNo f g = newestFirstByEpochNumber f g

/-! ## A chain of versions -/

/-- A version in a chain whose L0 is in one order. -/
structure InChain (order : EpochNumberRequirement) (base : VersionStorageInfo K)
    (edits : List (VersionEdit K)) (v : VersionStorageInfo K) : Prop where
  distinct : Distinct v
  l0 : (v.levelFiles 0).Pairwise fun f g => levelZeroCmp order f g
  levels : ∀ level, 1 ≤ level → (v.levelFiles level).Pairwise fun f g => bySmallestKey f g
  inL0 : ∀ f ∈ v.levelFiles 0, InL0 base edits f
  numLevels_eq : v.numLevels = base.numLevels

/-- A builder on a version of the chain has added files of the edits. -/
structure OnChain (order : EpochNumberRequirement) (base : VersionStorageInfo K)
    (edits : List (VersionEdit K)) (b : Rep K) : Prop where
  inv : b.FilesInv
  start : InChain order base edits b.base
  added : ∀ level f, f ∈ (b.levels level).addedFiles → ∃ edit ∈ edits, (level, f) ∈ edit.newFiles

/-- The builder saves the L0 files of the chain in its order. -/
def SavesIn (requirement order : EpochNumberRequirement) (base : VersionStorageInfo K)
    (edits : List (VersionEdit K)) (b : Rep K) : Prop :=
  ∀ f g, InL0 base edits f → InL0 base edits g →
    levelZeroCmp (b.savedRequirement requirement) f g = levelZeroCmp order f g

variable {handler track allowIncomplete requirement} {base : VersionStorageInfo K}
  {edits : List (VersionEdit K)} {order : EpochNumberRequirement}

lemma InChain.init (h : InChain order base edits v) :
    OnChain order base edits (Rep.init handler track allowIncomplete v) :=
  ⟨Rep.filesInv_init h.distinct, h, by simp [Rep.init]⟩

omit [LinearOrder K] in
lemma savedTable_init (v : VersionStorageInfo K) :
    (init handler track allowIncomplete v).savedTable = v.findFile := by
  funext n
  cases hfind : v.findFile n <;> simp [savedTable, table, init, LeftOut, hfind]

lemma added_of_apply {edit : VersionEdit K} (inv : b.FilesInv) (h : apply edit b = (.ok, b'))
    {level : ℕ} {f : FileMetaData K} (hf : f ∈ (b'.levels level).addedFiles) :
    f ∈ (b.levels level).addedFiles ∨ (level, f) ∈ edit.newFiles := by
  obtain ⟨-, b₅, hchanges, hfiles, -⟩ := apply_ok h
  obtain ⟨b₁, b₂, b₃, h₁, h₂, h₃, h₄⟩ := applyChanges_ok hchanges
  rw [hfiles.levels] at hf
  have hstep₁ := forEach_keeps (fun s => s.FilesInv ∧ s.levels = b.levels) h₁
    (fun _ _ _ _ hs hstep => by
      have hsame := (applyBlobFileAddition_ok hstep).toSameFiles
      exact ⟨hsame.filesInv hs.1, hsame.levels.trans hs.2⟩) ⟨inv, rfl⟩
  obtain ⟨inv₂, hlevels⟩ := forEach_keeps (fun s => s.FilesInv ∧ s.levels = b.levels) h₂
    (fun _ _ _ _ hs hstep => by
      have hsame := (applyBlobFileGarbage_ok hstep).toSameFiles
      exact ⟨hsame.filesInv hs.1, hsame.levels.trans hs.2⟩) hstep₁
  obtain ⟨inv₃, hdeleted⟩ := forEach_keeps (fun s => s.FilesInv ∧
      ∀ level f, f ∈ (s.levels level).addedFiles → f ∈ (b.levels level).addedFiles) h₃
    (fun deleted _ s s' hs hstep => by
      obtain ⟨⟨hinv, -⟩, -⟩ := applyFileDeletion_table hs.1 hstep
      refine ⟨hinv, fun level f hf => hs.2 level f ?_⟩
      obtain ⟨hcurrent, ⟨-, hchanged⟩ | ⟨-, hremoved⟩⟩ := applyFileDeletion_ok hstep
      · exact hchanged.levels ▸ hf
      · exact ((hremoved.mem_addedFiles hs.1 hcurrent).1 hf).1)
    ⟨inv₂, fun _ _ hf => hlevels ▸ hf⟩
  obtain ⟨-, hadded⟩ := forEach_keeps (fun s => s.FilesInv ∧
      ∀ level f, f ∈ (s.levels level).addedFiles →
        f ∈ (b.levels level).addedFiles ∨ (level, f) ∈ edit.newFiles) h₄
    (fun added hmem s s' hs hstep => by
      obtain ⟨⟨hinv, -⟩, -⟩ := applyFileAddition_table hs.1 hstep
      refine ⟨hinv, fun level f hf => ?_⟩
      obtain ⟨hcurrent, ⟨-, hchanged⟩ | ⟨-, hinserted⟩⟩ := applyFileAddition_ok hstep
      · exact hs.2 level f (hchanged.levels ▸ hf)
      · rcases (hinserted.mem_addedFiles hs.1 hcurrent).1 hf with hf | ⟨rfl, rfl⟩
        · exact hs.2 level f hf
        · exact .inr hmem)
    ⟨inv₃, fun level f hf => .inl (hdeleted level f hf)⟩
  exact hadded level f hf

omit [LinearOrder K] in
/-- The loop over the files of an edit keeps those that were added and adds the new ones. -/
lemma forEach_applyFileAddition {newFiles : List (ℕ × FileMetaData K)} (inv : b.FilesInv)
    (h : forEach applyFileAddition newFiles b = (.ok, b')) :
    (∀ level f, f ∈ (b.levels level).addedFiles → f ∈ (b'.levels level).addedFiles) ∧
      ∀ added ∈ newFiles, added.1 < b.numLevels → added.2 ∈ (b'.levels added.1).addedFiles := by
  induction newFiles generalizing b with
  | nil =>
    cases h
    exact ⟨fun _ _ => id, by simp⟩
  | cons added newFiles ih =>
    obtain ⟨b₁, hstep, h⟩ := forEach_cons h
    obtain ⟨⟨inv₁, hsetup⟩, -⟩ := applyFileAddition_table inv hstep
    obtain ⟨hkept, hnew⟩ := ih inv₁ h
    obtain ⟨hcurrent, ⟨hlevel, hchanged⟩ | ⟨hlevel, hinserted⟩⟩ := applyFileAddition_ok hstep
    · refine ⟨fun level f hf => hkept level f (hchanged.levels ▸ hf), fun a ha hlt => ?_⟩
      rcases mem_cons.1 ha with rfl | ha
      · exact absurd hlt (not_lt.2 hlevel)
      · exact hnew a ha (hsetup.numLevels ▸ hlt)
    · have hmem : ∀ level f, f ∈ (b₁.levels level).addedFiles ↔ _ := fun level f =>
        hinserted.mem_addedFiles inv hcurrent
      refine ⟨fun level f hf => hkept level f ((hmem level f).2 (.inl hf)), fun a ha hlt => ?_⟩
      rcases mem_cons.1 ha with rfl | ha
      · exact hkept _ _ ((hmem _ _).2 (.inr ⟨rfl, rfl⟩))
      · exact hnew a ha (hsetup.numLevels ▸ hlt)

/-- The files that an edit adds are there when it has been applied. -/
lemma mem_addedFiles_of_apply {edit : VersionEdit K} (inv : b.FilesInv)
    (h : apply edit b = (.ok, b')) {added : ℕ × FileMetaData K} (hadded : added ∈ edit.newFiles)
    (hlevel : added.1 < b.numLevels) : added.2 ∈ (b'.levels added.1).addedFiles := by
  obtain ⟨-, b₅, hchanges, hfiles, -⟩ := apply_ok h
  obtain ⟨b₁, b₂, b₃, h₁, h₂, h₃, h₄⟩ := applyChanges_ok hchanges
  have hstep₁ := forEach_keeps (fun s => s.FilesInv ∧ s.numLevels = b.numLevels) h₁
    (fun _ _ _ _ hs hstep => by
      have hsame := (applyBlobFileAddition_ok hstep).toSameFiles
      exact ⟨hsame.filesInv hs.1, hsame.numLevels.trans hs.2⟩) ⟨inv, rfl⟩
  have hstep₂ := forEach_keeps (fun s => s.FilesInv ∧ s.numLevels = b.numLevels) h₂
    (fun _ _ _ _ hs hstep => by
      have hsame := (applyBlobFileGarbage_ok hstep).toSameFiles
      exact ⟨hsame.filesInv hs.1, hsame.numLevels.trans hs.2⟩) hstep₁
  have hstep₃ := forEach_keeps (fun s => s.FilesInv ∧ s.numLevels = b.numLevels) h₃
    (fun _ _ _ _ hs hstep => by
      obtain ⟨⟨hinv, hsetup⟩, -⟩ := applyFileDeletion_table hs.1 hstep
      exact ⟨hinv, hsetup.numLevels.trans hs.2⟩) hstep₂
  rw [hfiles.levels]
  exact (forEach_applyFileAddition hstep₃.1 h₄).2 added hadded (hstep₃.2 ▸ hlevel)

lemma OnChain.apply {edit : VersionEdit K} (h : OnChain order base edits b) (hedit : edit ∈ edits)
    (happly : apply edit b = (.ok, b')) : OnChain order base edits b' := by
  obtain ⟨⟨hinv, hsetup⟩, -⟩ := apply_table h.inv happly
  refine ⟨hinv, hsetup.base ▸ h.start, fun level f hf => ?_⟩
  rcases added_of_apply h.inv happly hf with hf | hf
  · exact h.added level f hf
  · exact ⟨edit, hedit, hf⟩

omit [LinearOrder K] in
lemma savedRequirement_of_present
    (h : ∀ level f, f ∈ (b.levels level).addedFiles → f.epochNumber ≠ unknownEpochNumber)
    (requirement : EpochNumberRequirement) : b.savedRequirement requirement = .mustPresent := by
  cases requirement with
  | mustPresent => rfl
  | mightMissing =>
    rw [savedRequirement, if_neg]
    simp only [any_eq_true, decide_eq_true_eq, not_exists, not_and]
    exact fun level _ f hf => h level f hf

omit [LinearOrder K] in
lemma isFileOrder_levelZeroCmp (requirement : EpochNumberRequirement) :
    IsFileOrder (levelZeroCmp (K := K) requirement) := by
  cases requirement with
  | mightMissing => exact isFileOrder_bySeqNo
  | mustPresent => exact isFileOrder_byEpochNumber

omit [LinearOrder K] in
lemma savedRequirement_of_missing {level : ℕ} {f : FileMetaData K} (hlevel : level < b.numLevels)
    (hf : f ∈ (b.levels level).addedFiles) (hmissing : f.epochNumber = unknownEpochNumber) :
    b.savedRequirement .mightMissing = .mightMissing := by
  rw [savedRequirement, if_pos]
  simp only [any_eq_true, decide_eq_true_eq]
  exact ⟨level, mem_range.2 hlevel, f, hf, hmissing⟩

section

variable (h : OnChain order base edits b)

include h

lemma OnChain.numLevels_eq : b.numLevels = base.numLevels := h.start.numLevels_eq

/-- The L0 files that a builder saves are L0 files of the base or of the edits. -/
lemma OnChain.inL0 {f : FileMetaData K}
    (hf : f ∈ (b.saveVersion requirement).levelFiles 0) : InL0 base edits f := by
  rw [h.inv.mem_saveVersion, savedTable, Option.filter_eq_some_iff, h.inv.table_eq_some] at hf
  rcases hf.1 with ⟨-, hbase, -⟩ | ⟨hadded, -⟩
  · exact h.start.inL0 f hbase
  · exact .inr (h.added 0 f hadded)

/-- A builder that has applied an edit saves L0 in the order of the requirement. -/
lemma OnChain.savesIn_apply (same : NeverChanges requirement base edits order)
    {edit : VersionEdit K} (hedit : edit ∈ edits) (happly : Rep.apply edit b = (.ok, b')) :
    SavesIn requirement order base edits b' := by
  have h' := h.apply hedit happly
  have hrequirement : b'.savedRequirement requirement = order := by
    cases order with
    | mustPresent =>
      rcases same with rfl | hknown
      · rfl
      · refine savedRequirement_of_present (fun level f hf => ?_) requirement
        obtain ⟨edit, hedit, hmem⟩ := h'.added level f hf
        exact hknown edit hedit (level, f) hmem
    | mightMissing =>
      obtain ⟨rfl, -, hmissing⟩ := same
      obtain ⟨added, hadded, hlevel, hunknown⟩ := hmissing edit hedit
      have hmem := mem_addedFiles_of_apply h.inv happly hadded (h.numLevels_eq ▸ hlevel)
      exact savedRequirement_of_missing (h'.numLevels_eq ▸ hlevel) hmem hunknown
  intro f g _ _
  rw [hrequirement]

/-- L0 is saved in the order of its version and in that of the chain. -/
lemma OnChain.sorted_l0 (saves : SavesIn requirement order base edits b) :
    ((b.saveVersion requirement).levelFiles 0).Pairwise (fun f g =>
      levelZeroCmp (b.savedRequirement requirement) f g) ∧
    ((b.saveVersion requirement).levelFiles 0).Pairwise fun f g => levelZeroCmp order f g := by
  have hbase : (b.base.levelFiles 0).Pairwise fun f g =>
      levelZeroCmp (b.savedRequirement requirement) f g :=
    h.start.l0.imp_of_mem fun {f g} hf hg hfg =>
      (saves f g (h.start.inL0 f hf) (h.start.inL0 g hg)).trans hfg
  have hsaved : ((b.saveVersion requirement).levelFiles 0).Pairwise fun f g =>
      levelZeroCmp (b.savedRequirement requirement) f g := by
    by_cases hlevel : 0 < b.numLevels
    · rw [saveVersion_levelFiles b requirement hlevel]
      exact sorted_saveLevel h.inv (isFileOrder_levelZeroCmp _) hbase
    · rw [saveVersion_levelFiles_of_le b requirement (not_lt.1 hlevel)]
      exact Pairwise.nil
  exact ⟨hsaved, hsaved.imp_of_mem fun {f g} hf hg hfg =>
    (saves f g (h.inL0 hf) (h.inL0 hg)).symm.trans hfg⟩

lemma OnChain.sorted_levels {level : ℕ} (hpos : 1 ≤ level) :
    ((b.saveVersion requirement).levelFiles level).Pairwise fun f g => bySmallestKey f g := by
  by_cases hlevel : level < b.numLevels
  · have hcmp : levelCmp (K := K) (b.savedRequirement requirement) level = bySmallestKey := by
      rw [levelCmp, if_neg (by omega)]
    rw [saveVersion_levelFiles b requirement hlevel, hcmp]
    exact sorted_saveLevel h.inv isFileOrder_bySmallestKey (h.start.levels level hpos)
  · rw [saveVersion_levelFiles_of_le b requirement (not_lt.1 hlevel)]
    exact Pairwise.nil

lemma OnChain.save (saves : SavesIn requirement order base edits b) :
    InChain order base edits (b.saveVersion requirement) :=
  ⟨h.inv.distinct_saveVersion requirement, (h.sorted_l0 saves).2, fun _ => h.sorted_levels,
    fun _ => h.inL0, (saveVersion_numLevels b requirement).trans h.numLevels_eq⟩

end

/-- What the edits need for the chain to stay in one order: every builder saves in it. -/
def Orderly (requirement order : EpochNumberRequirement) (base : VersionStorageInfo K)
    (edits : List (VersionEdit K)) : Prop :=
  ∀ (b b' : Rep K) (edit : VersionEdit K), OnChain order base edits b → edit ∈ edits →
    apply edit b = (.ok, b') → SavesIn requirement order base edits b'

/-- The builder and the chain of versions have the same table after every edit. -/
lemma table_chain (orderly : Orderly requirement order base edits) {rest : List (VersionEdit K)}
    {v' : VersionStorageInfo K} (hrest : ∀ edit ∈ rest, edit ∈ edits)
    (hb : OnChain order base edits b)
    (hsetup : SameSetup (init handler track allowIncomplete base) b)
    (hv : InChain order base edits v) (htable : v.findFile = b.savedTable)
    (hone : forEach apply rest b = (.ok, b'))
    (heach : buildEach handler track allowIncomplete requirement rest v = (.ok, v')) :
    OnChain order base edits b' ∧ InChain order base edits v' ∧ v'.findFile = b'.savedTable ∧
      (SavesIn requirement order base edits b ∨ rest ≠ [] →
        SavesIn requirement order base edits b') := by
  induction rest generalizing b v with
  | nil =>
    cases hone
    cases heach
    exact ⟨hb, hv, htable, fun h => h.resolve_right (by simp)⟩
  | cons edit rest ih =>
    obtain ⟨b₁, happly, hone⟩ := forEach_cons hone
    rw [buildEach] at heach
    split at heach
    swap
    · next hfailed _ => exact absurd (Prod.mk.inj heach).1 (hfailed ·)
    next c hc =>
    obtain ⟨⟨-, hsetup₁⟩, htable₁⟩ := apply_table hb.inv happly
    have hinit : OnChain order base edits (init handler track allowIncomplete v) := hv.init
    obtain ⟨⟨hinv, hsetup₂⟩, htable₂⟩ := apply_table hinit.inv hc
    have hedit := hrest edit (by simp)
    have honChain := hinit.apply hedit hc
    have hsaves := orderly _ _ edit hinit hedit hc
    have htables : (c.saveVersion requirement).findFile = b₁.savedTable := by
      have hleavesOut : ∀ added,
          (init handler track allowIncomplete v).LeavesOut added ↔ b.LeavesOut added :=
        fun added => (hsetup.leavesOut added).symm
      have hlevels : (init handler track allowIncomplete v).numLevels = b.numLevels :=
        hv.numLevels_eq.trans hsetup.numLevels.symm
      rw [hinv.findFile_saveVersion, htable₁, htable₂, savedTable_init, htable, FileTable.edit,
        hlevels, FileTable.add_congr hleavesOut, FileTable.edit]
    obtain ⟨hb', hv', htable', hsaves'⟩ := ih (fun e he => hrest e (mem_cons_of_mem _ he))
      (hb.apply hedit happly) (hsetup.trans hsetup₁) (honChain.save hsaves) htables hone heach
    exact ⟨hb', hv', htable', fun _ => hsaves' (.inl (orderly _ _ edit hb hedit happly))⟩

/-- In a chain whose L0 is ordered in one way the builders save in that way, and so does one
builder that has applied all edits. -/
lemma OneOrder.exists_order (handler : FileVerifier K) (track allowIncomplete : Bool)
    (one : OneOrder requirement base edits) (version : IsVersion base) :
    ∃ order, (base.levelFiles 0).Pairwise (fun f g => levelZeroCmp order f g) ∧
      Orderly requirement order base edits ∧
      (SavesIn requirement order base edits (init handler track allowIncomplete base) ∨
        edits ≠ []) := by
  have hinit : (init handler track allowIncomplete base).savedRequirement requirement =
      .mustPresent := savedRequirement_of_present (by simp [Rep.init]) requirement
  rcases one with ⟨order, hbase, same⟩ | hagree
  · refine ⟨order, hbase, fun b b' edit hb hedit happly => hb.savesIn_apply same hedit happly, ?_⟩
    cases order with
    | mustPresent =>
      left
      intro f g _ _
      rw [hinit]
    | mightMissing => exact .inr same.2.1
  · -- the two orders are one, so that it does not matter which one is taken
    have hcmp : ∀ r f g, InL0 base edits f → InL0 base edits g →
        levelZeroCmp r f g = levelZeroCmp .mustPresent f g := by
      intro r f g hf hg
      cases r with
      | mightMissing => exact hagree f g hf hg
      | mustPresent => rfl
    refine ⟨.mustPresent, ?_, fun b b' edit _ _ _ f g hf hg => hcmp _ f g hf hg,
      .inl fun f g hf hg => hcmp _ f g hf hg⟩
    exact version.l0.imp_of_mem fun {f g} hf hg hfg =>
      (hcmp _ f g (Or.inl hf) (Or.inl hg)).symm.trans hfg

lemma isVersion_fresh (numLevels : ℕ) (requirement : EpochNumberRequirement) (force : Bool) :
    IsVersion (.fresh numLevels requirement force : VersionStorageInfo K) :=
  ⟨⟨by simp [levelFiles_fresh], by simp [levelFiles_fresh]⟩,
    by simp [levelFiles_fresh], by simp [levelFiles_fresh]⟩

end Versions

/-- Every file is found. -/
def nothingMissing : FileVerifier ℕ := ⟨fun _ _ => .ok, fun _ => .ok⟩

/-- A file of one key. -/
def fileOf (number epoch sequence blob : ℕ) : FileMetaData ℕ where
  number
  smallest := ⟨number, sequence, .value⟩
  largest := ⟨number, sequence, .value⟩
  smallestSeqno := sequence
  largestSeqno := sequence
  epochNumber := epoch
  oldestBlobFileNumber := blob

end BucketLSM.Manifest
