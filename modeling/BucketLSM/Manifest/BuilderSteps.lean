import BucketLSM.Manifest.VersionBuilder

/-!
# The steps of a builder

`Apply` adds blob files and garbage, then deletes and adds table files. For each of these steps
that succeeds, the fields of the builder that are read later are given in terms of those before
it.
-/

namespace BucketLSM.Manifest.Rep

open Function MutableBlobFileMetaData

variable {K : Type}

/-- The parts of a builder that no edit changes. -/
structure SameSetup (b b' : Rep K) : Prop where
  base : b'.base = b.base
  handler : b'.handler = b.handler
  track : b'.trackFoundAndMissingFiles = b.trackFoundAndMissingFiles
  allowIncomplete : b'.allowIncompleteValidVersion = b.allowIncompleteValidVersion

/-- The parts of a builder that blob files do not change. -/
structure SameFiles (b b' : Rep K) : Prop extends SameSetup b b' where
  levels : b'.levels = b.levels
  tableFileLevels : b'.tableFileLevels = b.tableFileLevels
  l0Missing : b'.l0MissingFiles = b.l0MissingFiles
  nonL0Missing : b'.nonL0MissingFiles = b.nonL0MissingFiles

/-- The parts of a builder that blob files are saved from. -/
structure SameBlobFiles (b b' : Rep K) : Prop where
  mutableBlobs : b'.mutableBlobFileMetas = b.mutableBlobFileMetas
  missing : b'.missingBlobFiles = b.missingBlobFiles
  missingHigh : b'.missingBlobFilesHigh = b.missingBlobFilesHigh

/-- A blob file is added. -/
structure BlobFileAdded (addition : BlobFileAddition) (b b' : Rep K) : Prop
    extends SameFiles b b' where
  new : b.isBlobFileInVersion addition.blobFileNumber = false
  mutableBlobs : b'.mutableBlobFileMetas = SortedMap.put MutableBlobFileMetaData.blobFileNumber
    { state := ⟨addition.blobFileNumber, addition.totalBlobCount, addition.totalBlobBytes, ∅, 0,
        0⟩ } b.mutableBlobFileMetas
  missing : b'.missingBlobFiles =
    if b.trackFoundAndMissingFiles ∧ isMissing (b.handler.verifyBlobFile addition) then
      insert addition.blobFileNumber b.missingBlobFiles else b.missingBlobFiles
  missingHigh : b'.missingBlobFilesHigh =
    if b.trackFoundAndMissingFiles ∧ isMissing (b.handler.verifyBlobFile addition) then
      max b.missingBlobFilesHigh addition.blobFileNumber else b.missingBlobFilesHigh

variable {b b' : Rep K} {level : ℕ} {S α : Type}

lemma SameSetup.refl (b : Rep K) : SameSetup b b := ⟨rfl, rfl, rfl, rfl⟩

lemma SameSetup.trans {b'' : Rep K} (h : SameSetup b b') (h' : SameSetup b' b'') :
    SameSetup b b'' :=
  ⟨h'.base.trans h.base, h'.handler.trans h.handler, h'.track.trans h.track,
    h'.allowIncomplete.trans h.allowIncomplete⟩

theorem applyBlobFileAddition_ok {addition : BlobFileAddition}
    (h : applyBlobFileAddition addition b = (.ok, b')) : BlobFileAdded addition b b' := by
  simp only [applyBlobFileAddition] at h
  split_ifs at h with hold htrack hmissing
  · cases h
  · obtain ⟨-, rfl⟩ := Prod.mk.inj h
    exact ⟨⟨⟨rfl, rfl, rfl, rfl⟩, rfl, rfl, rfl, rfl⟩, Bool.eq_false_iff.2 hold, rfl,
      (if_pos ⟨htrack, hmissing⟩).symm, (if_pos ⟨htrack, hmissing⟩).symm⟩
  · obtain ⟨-, rfl⟩ := Prod.mk.inj h
    exact ⟨⟨⟨rfl, rfl, rfl, rfl⟩, rfl, rfl, rfl, rfl⟩, Bool.eq_false_iff.2 hold, rfl,
      (if_neg fun hc => hmissing hc.2).symm, (if_neg fun hc => hmissing hc.2).symm⟩
  · obtain ⟨-, rfl⟩ := Prod.mk.inj h
    exact ⟨⟨⟨rfl, rfl, rfl, rfl⟩, rfl, rfl, rfl, rfl⟩, Bool.eq_false_iff.2 hold, rfl,
      (if_neg fun hc => htrack hc.1).symm, (if_neg fun hc => htrack hc.1).symm⟩

/-- Garbage is added to a blob file. -/
structure BlobFileGarbageAdded (garbage : BlobFileGarbage) (b b' : Rep K) : Prop
    extends SameFiles b b' where
  mutableBlobs : ∃ m m', b.getMutable garbage.blobFileNumber = some m ∧
    m.addGarbage garbage.garbageBlobCount garbage.garbageBlobBytes = some m' ∧
    b'.mutableBlobFileMetas =
      SortedMap.put MutableBlobFileMetaData.blobFileNumber m' b.mutableBlobFileMetas
  missing : b'.missingBlobFiles = b.missingBlobFiles
  missingHigh : b'.missingBlobFilesHigh = b.missingBlobFilesHigh

theorem applyBlobFileGarbage_ok {garbage : BlobFileGarbage}
    (h : applyBlobFileGarbage garbage b = (.ok, b')) : BlobFileGarbageAdded garbage b b' := by
  unfold applyBlobFileGarbage at h
  cases hm : b.getMutable garbage.blobFileNumber with
  | none => simp [hm] at h
  | some m =>
    cases hm' : m.addGarbage garbage.garbageBlobCount garbage.garbageBlobBytes with
    | none => simp [hm, hm'] at h
    | some m' =>
      simp only [hm, hm'] at h
      obtain ⟨-, rfl⟩ := Prod.mk.inj h
      exact ⟨⟨⟨rfl, rfl, rfl, rfl⟩, rfl, rfl, rfl, rfl⟩, ⟨m, m', hm, hm', rfl⟩, rfl, rfl⟩

theorem modifyBlobFile_sameFiles (b : Rep K) (n : ℕ)
    (change : MutableBlobFileMetaData → MutableBlobFileMetaData) :
    SameFiles b (b.modifyBlobFile n change) := by
  unfold modifyBlobFile
  split
  · exact ⟨⟨rfl, rfl, rfl, rfl⟩, rfl, rfl, rfl, rfl⟩
  · split <;> exact ⟨⟨rfl, rfl, rfl, rfl⟩, rfl, rfl, rfl, rfl⟩

theorem modifyBlobFile_missing (b : Rep K) (n : ℕ)
    (change : MutableBlobFileMetaData → MutableBlobFileMetaData) :
    (b.modifyBlobFile n change).missingBlobFiles = b.missingBlobFiles ∧
    (b.modifyBlobFile n change).missingBlobFilesHigh = b.missingBlobFilesHigh := by
  unfold modifyBlobFile
  split
  · exact ⟨rfl, rfl⟩
  · split <;> exact ⟨rfl, rfl⟩

/-- The current level of a file is changed, and nothing else is; so it is for the levels that the
builder does not have. -/
structure LevelChanged (n : ℕ) (level : Option ℕ) (b b' : Rep K) : Prop
    extends SameSetup b b', SameBlobFiles b b' where
  tableFileLevels : b'.tableFileLevels = Function.update b.tableFileLevels n (some level)
  levels : b'.levels = b.levels
  l0Missing : b'.l0MissingFiles = b.l0MissingFiles
  nonL0Missing : b'.nonL0MissingFiles = b.nonL0MissingFiles

/-- A table file is deleted from a level. -/
structure FileRemoved (level n : ℕ) (b b' : Rep K) : Prop extends SameSetup b b' where
  tableFileLevels : b'.tableFileLevels = Function.update b.tableFileLevels n (some none)
  levels : b'.levels = Function.update b.levels level
    { deletedFiles := insert n (b.levels level).deletedFiles
      addedFiles := (b.levels level).addedFiles.filter fun f => f.number ≠ n }
  l0Missing : b'.l0MissingFiles =
    if b.trackFoundAndMissingFiles then b.l0MissingFiles.erase n else b.l0MissingFiles
  nonL0Missing : b'.nonL0MissingFiles =
    if b.trackFoundAndMissingFiles ∧ n ∉ b.l0MissingFiles then b.nonL0MissingFiles.erase n
    else b.nonL0MissingFiles
  mutableBlobs : b'.mutableBlobFileMetas = (b.modifyBlobFile
    (b.getOldestBlobFileNumberForTableFile level n) (·.unlinkSst n)).mutableBlobFileMetas
  missing : b'.missingBlobFiles = b.missingBlobFiles
  missingHigh : b'.missingBlobFilesHigh = b.missingBlobFilesHigh

theorem forgetFile_spec (b : Rep K) (n : ℕ) :
    SameSetup b (b.forgetFile n) ∧ SameBlobFiles b (b.forgetFile n) ∧
    (b.forgetFile n).levels = b.levels ∧ (b.forgetFile n).tableFileLevels = b.tableFileLevels ∧
    (b.forgetFile n).l0MissingFiles = b.l0MissingFiles.erase n ∧
    (b.forgetFile n).nonL0MissingFiles =
      if n ∉ b.l0MissingFiles then b.nonL0MissingFiles.erase n else b.nonL0MissingFiles := by
  unfold forgetFile
  split_ifs with hl0 hnonL0 hfound
  · exact ⟨⟨rfl, rfl, rfl, rfl⟩, ⟨rfl, rfl, rfl⟩, rfl, rfl, rfl, rfl⟩
  · exact ⟨⟨rfl, rfl, rfl, rfl⟩, ⟨rfl, rfl, rfl⟩, rfl, rfl, (Finset.erase_eq_of_notMem hl0).symm,
      rfl⟩
  · exact ⟨⟨rfl, rfl, rfl, rfl⟩, ⟨rfl, rfl, rfl⟩, rfl, rfl, (Finset.erase_eq_of_notMem hl0).symm,
      (Finset.erase_eq_of_notMem hnonL0).symm⟩
  · exact ⟨⟨rfl, rfl, rfl, rfl⟩, ⟨rfl, rfl, rfl⟩, rfl, rfl, (Finset.erase_eq_of_notMem hl0).symm,
      (Finset.erase_eq_of_notMem hnonL0).symm⟩

theorem removeFile_spec (b : Rep K) (level n : ℕ) : SameSetup b (b.removeFile level n) ∧
    (b.removeFile level n).tableFileLevels = update b.tableFileLevels n (some none) ∧
    (b.removeFile level n).levels = update b.levels level
      { deletedFiles := insert n (b.levels level).deletedFiles
        addedFiles := (b.levels level).addedFiles.filter fun f => f.number ≠ n } ∧
    (b.removeFile level n).l0MissingFiles = b.l0MissingFiles ∧
    (b.removeFile level n).nonL0MissingFiles = b.nonL0MissingFiles := by
  have hfiles := b.modifyBlobFile_sameFiles (b.getOldestBlobFileNumberForTableFile level n)
    (·.unlinkSst n)
  simp only [removeFile, setLevel, setTableFileLevel]
  rw [hfiles.tableFileLevels, hfiles.levels]
  exact ⟨⟨hfiles.base, hfiles.handler, hfiles.track, hfiles.allowIncomplete⟩, rfl, rfl,
    hfiles.l0Missing, hfiles.nonL0Missing⟩

theorem applyFileDeletion_ok {n : ℕ} (h : applyFileDeletion (level, n) b = (.ok, b')) :
    b.getCurrentLevelForTableFile n = some level ∧ (b.numLevels ≤ level ∧ LevelChanged n none b b' ∨
      level < b.numLevels ∧ FileRemoved level n b b') := by
  simp only [applyFileDeletion] at h
  obtain ⟨hsetup, htable, hlevels, hl0, hnonL0⟩ := b.removeFile_spec level n
  obtain ⟨hmissing, hhigh⟩ := b.modifyBlobFile_missing
    (b.getOldestBlobFileNumberForTableFile level n) (·.unlinkSst n)
  split_ifs at h with hcurrent hlevel htrack
  · cases h
  · obtain ⟨-, rfl⟩ := Prod.mk.inj h
    exact ⟨not_not.1 hcurrent, .inl ⟨hlevel, ⟨rfl, rfl, rfl, rfl⟩, ⟨rfl, rfl, rfl⟩, rfl, rfl, rfl,
      rfl⟩⟩
  · obtain ⟨-, rfl⟩ := Prod.mk.inj h
    refine ⟨not_not.1 hcurrent, .inr ⟨not_le.1 hlevel, ?_⟩⟩
    have htrack' := hsetup.track ▸ htrack
    obtain ⟨hsetup', hblobs', hlevels', htable', hl0', hnonL0'⟩ :=
      (b.removeFile level n).forgetFile_spec n
    refine ⟨hsetup.trans hsetup', htable'.trans htable, hlevels'.trans hlevels, ?_, ?_,
      hblobs'.mutableBlobs, hblobs'.missing.trans hmissing, hblobs'.missingHigh.trans hhigh⟩
    · rw [hl0', hl0, if_pos htrack']
    · rw [hnonL0', hl0, hnonL0]
      simp only [htrack', true_and]
  · obtain ⟨-, rfl⟩ := Prod.mk.inj h
    have htrack' : ¬ b.trackFoundAndMissingFiles := hsetup.track ▸ htrack
    exact ⟨not_not.1 hcurrent, .inr ⟨not_le.1 hlevel, hsetup, htable, hlevels,
      hl0.trans (if_neg htrack').symm, hnonL0.trans (if_neg fun hc => htrack' hc.1).symm, rfl,
      hmissing, hhigh⟩⟩

/-- A table file is added to a level. -/
structure FileInserted (level : ℕ) (f : FileMetaData K) (b b' : Rep K) : Prop
    extends SameSetup b b' where
  tableFileLevels : b'.tableFileLevels =
    Function.update b.tableFileLevels f.number (some (some level))
  levels : b'.levels = Function.update b.levels level
    { deletedFiles := (b.levels level).deletedFiles.erase f.number
      addedFiles := if ((b.levels level).findAdded f.number).isSome then (b.levels level).addedFiles
        else f :: (b.levels level).addedFiles }
  l0Missing : b'.l0MissingFiles =
    if b.trackFoundAndMissingFiles ∧ level = 0 ∧ isMissing (b.handler.verifyFile level f) then
      insert f.number b.l0MissingFiles else b.l0MissingFiles
  nonL0Missing : b'.nonL0MissingFiles =
    if b.trackFoundAndMissingFiles ∧ level ≠ 0 ∧ isMissing (b.handler.verifyFile level f) then
      insert f.number b.nonL0MissingFiles else b.nonL0MissingFiles
  mutableBlobs : b'.mutableBlobFileMetas =
    (b.modifyBlobFile f.oldestBlobFileNumber (·.linkSst f.number)).mutableBlobFileMetas
  missing : b'.missingBlobFiles = b.missingBlobFiles
  missingHigh : b'.missingBlobFilesHigh = b.missingBlobFilesHigh

theorem modifyBlobFile_mutableBlobs (b : Rep K) (n : ℕ)
    (change : MutableBlobFileMetaData → MutableBlobFileMetaData) :
    (b.modifyBlobFile n change).mutableBlobFileMetas =
      if n = invalidBlobFileNumber then b.mutableBlobFileMetas
      else (b.getMutable n).elim b.mutableBlobFileMetas fun m =>
        SortedMap.put blobFileNumber (change m) b.mutableBlobFileMetas := by
  unfold modifyBlobFile
  split_ifs with hn
  · rfl
  · cases b.getMutable n <;> rfl

theorem insertFile_spec (b : Rep K) (level : ℕ) (f : FileMetaData K) :
    SameSetup b (b.insertFile level f) ∧ (b.insertFile level f).tableFileLevels =
      update b.tableFileLevels f.number (some (some level)) ∧
    (b.insertFile level f).levels = update b.levels level
      { deletedFiles := (b.levels level).deletedFiles.erase f.number
        addedFiles := if ((b.levels level).findAdded f.number).isSome
          then (b.levels level).addedFiles else f :: (b.levels level).addedFiles } ∧
    (b.insertFile level f).l0MissingFiles = b.l0MissingFiles ∧
    (b.insertFile level f).nonL0MissingFiles = b.nonL0MissingFiles ∧
    (b.insertFile level f).mutableBlobFileMetas =
      (b.modifyBlobFile f.oldestBlobFileNumber (·.linkSst f.number)).mutableBlobFileMetas ∧
    (b.insertFile level f).missingBlobFiles = b.missingBlobFiles ∧
    (b.insertFile level f).missingBlobFilesHigh = b.missingBlobFilesHigh := by
  simp only [insertFile, setTableFileLevel, modifyBlobFile_mutableBlobs]
  generalize hlevel : b.setLevel level _ = onLevel
  obtain ⟨hmissing, hhigh⟩ := onLevel.modifyBlobFile_missing f.oldestBlobFileNumber
    (·.linkSst f.number)
  have hfiles := onLevel.modifyBlobFile_sameFiles f.oldestBlobFileNumber (·.linkSst f.number)
  rw [hfiles.tableFileLevels, hfiles.levels, hfiles.l0Missing, hfiles.nonL0Missing, hmissing, hhigh]
  subst hlevel
  exact ⟨⟨hfiles.base, hfiles.handler, hfiles.track, hfiles.allowIncomplete⟩, rfl, rfl, rfl, rfl,
    rfl, rfl, rfl⟩

theorem missFile_spec (b : Rep K) (level n : ℕ) (s : Status) :
    SameSetup b (b.missFile level n s) ∧ SameBlobFiles b (b.missFile level n s) ∧
    (b.missFile level n s).levels = b.levels ∧
    (b.missFile level n s).tableFileLevels = b.tableFileLevels ∧
    (b.missFile level n s).l0MissingFiles =
      (if level = 0 then insert n b.l0MissingFiles else b.l0MissingFiles) ∧
    (b.missFile level n s).nonL0MissingFiles =
      (if level = 0 then b.nonL0MissingFiles else insert n b.nonL0MissingFiles) := by
  unfold missFile
  by_cases hl0 : level = 0
  · simp only [if_pos hl0]
    split <;> exact ⟨⟨rfl, rfl, rfl, rfl⟩, ⟨rfl, rfl, rfl⟩, rfl, rfl, rfl, rfl⟩
  · simp only [if_neg hl0]
    split <;> exact ⟨⟨rfl, rfl, rfl, rfl⟩, ⟨rfl, rfl, rfl⟩, rfl, rfl, rfl, rfl⟩

theorem trackFile_ok {f : FileMetaData K} (h : b.trackFile level f = (.ok, b')) :
    SameSetup b b' ∧ SameBlobFiles b b' ∧ b'.levels = b.levels ∧
    b'.tableFileLevels = b.tableFileLevels ∧
    b'.l0MissingFiles = (if level = 0 ∧ isMissing (b.handler.verifyFile level f) then
      insert f.number b.l0MissingFiles else b.l0MissingFiles) ∧
    b'.nonL0MissingFiles = (if level ≠ 0 ∧ isMissing (b.handler.verifyFile level f) then
      insert f.number b.nonL0MissingFiles else b.nonL0MissingFiles) := by
  simp only [trackFile] at h
  split_ifs at h with hmissing hok
  · obtain ⟨-, rfl⟩ := Prod.mk.inj h
    obtain ⟨hsetup, hblobs, hlevels, htable, hl0, hnonL0⟩ :=
      b.missFile_spec level f.number (b.handler.verifyFile level f)
    refine ⟨hsetup, hblobs, hlevels, htable, ?_, ?_⟩
    · simp only [hl0, hmissing, and_true]
    · simp only [hnonL0, hmissing, and_true, ne_eq, ite_not]
  all_goals
    obtain ⟨-, rfl⟩ := Prod.mk.inj h
    exact ⟨⟨rfl, rfl, rfl, rfl⟩, ⟨rfl, rfl, rfl⟩, rfl, rfl, (if_neg fun hc => hmissing hc.2).symm,
      (if_neg fun hc => hmissing hc.2).symm⟩

theorem applyFileAddition_ok {f : FileMetaData K} (h : applyFileAddition (level, f) b = (.ok, b')) :
    b.getCurrentLevelForTableFile f.number = none ∧
    (b.numLevels ≤ level ∧ LevelChanged f.number (some level) b b' ∨
      level < b.numLevels ∧ FileInserted level f b b') := by
  simp only [applyFileAddition] at h
  obtain ⟨hsetup, htable, hlevels, hl0, hnonL0, hblobs, hmissing, hhigh⟩ :=
    b.insertFile_spec level f
  split_ifs at h with hcurrent hlevel htrack
  · cases h
  · obtain ⟨-, rfl⟩ := Prod.mk.inj h
    exact ⟨by simpa using hcurrent, .inl ⟨hlevel, ⟨rfl, rfl, rfl, rfl⟩, ⟨rfl, rfl, rfl⟩, rfl, rfl,
      rfl, rfl⟩⟩
  · have htrack' := hsetup.track ▸ htrack
    obtain ⟨hsetup', hblobs', hlevels', htable', hl0', hnonL0'⟩ := trackFile_ok h
    refine ⟨by simpa using hcurrent, .inr ⟨not_le.1 hlevel, hsetup.trans hsetup',
      htable'.trans htable, hlevels'.trans hlevels, ?_, ?_, hblobs'.mutableBlobs.trans hblobs,
      hblobs'.missing.trans hmissing, hblobs'.missingHigh.trans hhigh⟩⟩
    · rw [hl0', hl0, hsetup.handler]
      simp only [htrack', true_and]
    · rw [hnonL0', hnonL0, hsetup.handler]
      simp only [htrack', true_and]
  · obtain ⟨-, rfl⟩ := Prod.mk.inj h
    have htrack' : ¬ b.trackFoundAndMissingFiles := hsetup.track ▸ htrack
    exact ⟨by simpa using hcurrent, .inr ⟨not_le.1 hlevel, hsetup, htable, hlevels,
      hl0.trans (if_neg fun hc => htrack' hc.1).symm,
      hnonL0.trans (if_neg fun hc => htrack' hc.1).symm, hblobs, hmissing, hhigh⟩⟩

/-! ## What an edit does -/

lemma forEach_cons {step : α → S → Status × S} {a : α} {l : List α} {s s' : S}
    (h : forEach step (a :: l) s = (.ok, s')) :
    ∃ s₁, step a s = (.ok, s₁) ∧ forEach step l s₁ = (.ok, s') := by
  rw [forEach] at h
  split at h
  · next s₁ hstep => exact ⟨s₁, hstep, h⟩
  · next hfailed => exact absurd h (hfailed _)

/-- What a loop adds up to, if every step that succeeds adds its part. -/
theorem forEach_ok {T : Type} {step : α → S → Status × S} {l : List α} {s s' : S} (inv : S → Prop)
    (view : S → T) (f : T → α → T) (h : forEach step l s = (.ok, s'))
    (hstep : ∀ a ∈ l, ∀ s s', inv s → step a s = (.ok, s') → inv s' ∧ view s' = f (view s) a)
    (hinv : inv s) : inv s' ∧ view s' = l.foldl f (view s) := by
  induction l generalizing s with
  | nil =>
    cases h
    exact ⟨hinv, rfl⟩
  | cons a l ih =>
    obtain ⟨s₁, heq, h⟩ := forEach_cons h
    obtain ⟨hinv₁, hview⟩ := hstep a (by simp) s s₁ hinv heq
    rw [List.foldl_cons, ← hview]
    exact ih h (fun x hx => hstep x (List.mem_cons_of_mem a hx)) hinv₁

/-- What every step that succeeds keeps, a loop keeps. -/
theorem forEach_keeps {step : α → S → Status × S} {l : List α} {s s' : S} (inv : S → Prop)
    (h : forEach step l s = (.ok, s'))
    (hstep : ∀ a ∈ l, ∀ s s', inv s → step a s = (.ok, s') → inv s') (hinv : inv s) : inv s' :=
  (forEach_ok inv (fun _ => ()) (fun _ _ => ()) h
    (fun a ha s s' hs heq => ⟨hstep a ha s s' hs heq, rfl⟩) hinv).1

/-- One more step of a loop that has succeeded. -/
theorem forEach_concat {step : α → S → Status × S} {l : List α} {a : α} {s s₁ s₂ : S}
    (h : forEach step l s = (.ok, s₁)) (ha : step a s₁ = (.ok, s₂)) :
    forEach step (l ++ [a]) s = (.ok, s₂) := by
  induction l generalizing s with
  | nil =>
    cases h
    rw [List.nil_append, forEach, ha]
    rfl
  | cons x l ih =>
    obtain ⟨s', hx, h⟩ := forEach_cons h
    rw [List.cons_append, forEach, hx]
    exact ih h

theorem applyChanges_ok {edit : VersionEdit K} (h : applyChanges edit b = (.ok, b')) :
    ∃ b₁ b₂ b₃, forEach applyBlobFileAddition edit.blobFileAdditions b = (.ok, b₁) ∧
      forEach applyBlobFileGarbage edit.blobFileGarbages b₁ = (.ok, b₂) ∧
      forEach applyFileDeletion edit.deletedFiles b₂ = (.ok, b₃) ∧
      forEach applyFileAddition edit.newFiles b₃ = (.ok, b') := by
  unfold applyChanges at h
  split at h
  · next b₁ h₁ =>
    split at h
    · next b₂ h₂ =>
      split at h
      · next b₃ h₃ => exact ⟨b₁, b₂, b₃, h₁, h₂, h₃, h⟩
      · next hfailed => exact absurd h (hfailed _)
    · next hfailed => exact absurd h (hfailed _)
  · next hfailed => exact absurd h (hfailed _)

end BucketLSM.Manifest.Rep
