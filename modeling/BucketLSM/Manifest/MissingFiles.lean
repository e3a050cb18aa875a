import Mathlib
import BucketLSM.Manifest.Recovery
import BucketLSM.Manifest.BlobLinks

/-!
# Versions without missing files

A builder that looks for files makes the same changes as one that does not, and it knows which of
its files are missing. If it contains a complete version, every table file and every blob file that
it saves is there, and what it saves does not depend on the files it has looked for.
-/

namespace BucketLSM.Manifest

open List SortedMap Finset Function MutableBlobFileMetaData

variable {K : Type}

/-- The addition of a blob file, as it can be told from the blob file. -/
def BlobFileMetaData.addition (blob : BlobFileMetaData) : BlobFileAddition :=
  ⟨blob.blobFileNumber, blob.totalBlobCount, blob.totalBlobBytes⟩

namespace Rep

/-! ## Looking for files changes nothing else -/

/-- The builder without what it keeps about found and missing files. -/
def untracked (b : Rep K) : Rep K where
  base := b.base
  levels := b.levels
  invalidLevelSizes := b.invalidLevelSizes
  hasInvalidLevels := b.hasInvalidLevels
  tableFileLevels := b.tableFileLevels
  mutableBlobFileMetas := b.mutableBlobFileMetas
  handler := b.handler
  allowIncompleteValidVersion := b.allowIncompleteValidVersion

/-- A step that succeeds would also have succeeded without looking for files. -/
def IgnoresTracking {α : Type} (step : α → Rep K → Status × Rep K) : Prop :=
  ∀ a b b', step a b = (.ok, b') → step a b.untracked = (.ok, b'.untracked)

/-- The sets of found and missing files play no part in a change of a blob file. -/
lemma untracked_modifyBlobFile (b : Rep K) (n : ℕ)
    (change : MutableBlobFileMetaData → MutableBlobFileMetaData) :
    (b.modifyBlobFile n change).untracked = b.untracked.modifyBlobFile n change := by
  have hget : b.untracked.getMutable n = b.getMutable n := rfl
  simp only [modifyBlobFile, hget]
  split_ifs
  · rfl
  · cases b.getMutable n <;> rfl

/-- Forgetting a file is a change of these sets only. -/
lemma untracked_forgetFile (b : Rep K) (n : ℕ) : (b.forgetFile n).untracked = b.untracked := by
  unfold forgetFile
  split_ifs <;> rfl

/-- Nor do they in the removal of a file. -/
lemma untracked_removeFile (b : Rep K) (level n : ℕ) :
    (b.removeFile level n).untracked = b.untracked.removeFile level n := by
  have hnumber : b.untracked.getOldestBlobFileNumberForTableFile level n =
    b.getOldestBlobFileNumberForTableFile level n := rfl
  simp only [removeFile, hnumber, ← untracked_modifyBlobFile]
  rfl

/-- Nor in its insertion. -/
lemma untracked_insertFile (b : Rep K) (level : ℕ) (f : FileMetaData K) :
    (b.insertFile level f).untracked = b.untracked.insertFile level f := by
  have hlevel : b.untracked.levels level = b.levels level := rfl
  have hset : ∀ state, b.untracked.setLevel level state = (b.setLevel level state).untracked :=
    fun _ => rfl
  simp only [insertFile, hlevel, hset, ← untracked_modifyBlobFile]
  rfl

variable {b b' : Rep K} {level n : ℕ}

/-- Tracking a file is a change of these sets only. -/
lemma untracked_trackFile {f : FileMetaData K} (h : b.trackFile level f = (.ok, b')) :
    b'.untracked = b.untracked := by
  simp only [trackFile] at h
  split_ifs at h with hmissing hok
  · obtain ⟨-, rfl⟩ := Prod.mk.inj h
    simp only [missFile]
    split_ifs <;> rfl
  · obtain ⟨-, rfl⟩ := Prod.mk.inj h
    rfl
  · exact absurd (Prod.mk.inj h).1 hok

/-- What does not track goes on not tracking: removals. -/
lemma untracked_track_removeFile (b : Rep K) (level n : ℕ) :
    (b.untracked.removeFile level n).trackFoundAndMissingFiles = false := by
  rw [← untracked_removeFile]
  rfl

/-- The same for insertions. -/
lemma untracked_track_insertFile (b : Rep K) (level : ℕ) (f : FileMetaData K) :
    (b.untracked.insertFile level f).trackFoundAndMissingFiles = false := by
  rw [← untracked_insertFile]
  rfl

/-- Blob file additions do not depend on tracking. -/
lemma applyBlobFileAddition_ignoresTracking : IgnoresTracking (K := K) applyBlobFileAddition := by
  intro addition b b' h
  have hknown : b.untracked.isBlobFileInVersion addition.blobFileNumber =
    b.isBlobFileInVersion addition.blobFileNumber := rfl
  simp only [applyBlobFileAddition] at h ⊢
  rw [hknown]
  split_ifs at h with hold htrack hmissing
  · cases (Prod.mk.inj h).1
  all_goals
    rw [if_neg hold]
    obtain ⟨-, rfl⟩ := Prod.mk.inj h
    rfl

/-- Garbage does not. -/
lemma applyBlobFileGarbage_ignoresTracking : IgnoresTracking (K := K) applyBlobFileGarbage := by
  intro garbage b b' h
  have hget : b.untracked.getMutable garbage.blobFileNumber =
    b.getMutable garbage.blobFileNumber := rfl
  simp only [applyBlobFileGarbage] at h ⊢
  rw [hget]
  cases hmutable : b.getMutable garbage.blobFileNumber with
  | none =>
    rw [hmutable] at h
    cases (Prod.mk.inj h).1
  | some m =>
    simp only [hmutable] at h ⊢
    cases hgarbage : m.addGarbage garbage.garbageBlobCount garbage.garbageBlobBytes with
    | none =>
      rw [hgarbage] at h
      cases (Prod.mk.inj h).1
    | some m' =>
      rw [hgarbage] at h
      obtain ⟨-, rfl⟩ := Prod.mk.inj h
      rfl

/-- File deletions do not. -/
lemma applyFileDeletion_ignoresTracking : IgnoresTracking (K := K) applyFileDeletion := by
  intro deleted b b' h
  have hcurrent : b.untracked.getCurrentLevelForTableFile deleted.2 =
    b.getCurrentLevelForTableFile deleted.2 := rfl
  have hlevels : b.untracked.numLevels = b.numLevels := rfl
  simp only [applyFileDeletion] at h ⊢
  rw [hcurrent, hlevels]
  split_ifs at h with hwrong hlevel htrack
  · cases (Prod.mk.inj h).1
  · obtain ⟨-, rfl⟩ := Prod.mk.inj h
    rw [if_neg hwrong, if_pos hlevel]
    rfl
  all_goals
    obtain ⟨-, rfl⟩ := Prod.mk.inj h
    rw [if_neg hwrong, if_neg hlevel, untracked_track_removeFile, if_neg (by simp)]
  · rw [untracked_forgetFile, untracked_removeFile]
  · rw [untracked_removeFile]

/-- File additions do not. -/
lemma applyFileAddition_ignoresTracking : IgnoresTracking (K := K) applyFileAddition := by
  intro added b b' h
  have hcurrent : b.untracked.getCurrentLevelForTableFile added.2.number =
    b.getCurrentLevelForTableFile added.2.number := rfl
  have hlevels : b.untracked.numLevels = b.numLevels := rfl
  simp only [applyFileAddition] at h ⊢
  rw [hcurrent, hlevels]
  split_ifs at h with hold hlevel htrack
  · cases (Prod.mk.inj h).1
  · obtain ⟨-, rfl⟩ := Prod.mk.inj h
    rw [if_neg hold, if_pos hlevel]
    rfl
  · rw [if_neg hold, if_neg hlevel, untracked_track_insertFile, if_neg (by simp),
      untracked_trackFile h, untracked_insertFile]
  · obtain ⟨-, rfl⟩ := Prod.mk.inj h
    rw [if_neg hold, if_neg hlevel, untracked_track_insertFile, if_neg (by simp),
      untracked_insertFile]

/-- Nor do loops of such steps. -/
lemma forEach_ignoresTracking {α : Type} {step : α → Rep K → Status × Rep K}
    (hstep : IgnoresTracking step) : IgnoresTracking (forEach step) := by
  intro l b b' h
  induction l generalizing b with
  | nil =>
    cases h
    rfl
  | cons a l ih =>
    obtain ⟨b₁, hfirst, h⟩ := forEach_cons h
    rw [forEach, hstep a b b₁ hfirst]
    exact ih b₁ h

/-- Hence all changes of an edit. -/
lemma applyChanges_ignoresTracking : IgnoresTracking (K := K) applyChanges := by
  intro edit b b' h
  obtain ⟨b₁, b₂, b₃, h₁, h₂, h₃, h₄⟩ := applyChanges_ok h
  simp only [applyChanges, forEach_ignoresTracking applyBlobFileAddition_ignoresTracking _ _ _ h₁,
    forEach_ignoresTracking applyBlobFileGarbage_ignoresTracking _ _ _ h₂,
    forEach_ignoresTracking applyFileDeletion_ignoresTracking _ _ _ h₃,
    forEach_ignoresTracking applyFileAddition_ignoresTracking _ _ _ h₄]

/-- And `Apply` itself. -/
lemma apply_ignoresTracking [LinearOrder K] : IgnoresTracking (K := K) apply := by
  intro edit b b' h
  rw [apply] at h ⊢
  have hbase : b.untracked.base = b.base := rfl
  rw [hbase]
  split at h
  swap
  · next hfailed => exact absurd (Prod.mk.inj h).1 (hfailed ·)
  split at h
  swap
  · next hfailed => exact absurd h (hfailed _)
  next b₁ hchanges =>
  simp only [applyChanges_ignoresTracking _ _ _ hchanges]
  have huntracked : b₁.untracked.trackFoundAndMissingFiles = false := rfl
  rw [huntracked, if_neg (by simp)]
  split_ifs at h
  all_goals
    obtain ⟨-, rfl⟩ := Prod.mk.inj h
    rfl

/-! ## The files that are missing -/

/-- A builder on a version without blob files knows the files that are missing. -/
structure Tracks (b : Rep K) : Prop where
  filesInv : FilesInv b
  track : b.trackFoundAndMissingFiles
  base : b.base.blobFiles = []
  ascending : SortedMap.Ascending MutableBlobFileMetaData.blobFileNumber b.mutableBlobFileMetas
  files : ∀ {k level f}, b.table k = some (level, f) → isMissing (b.handler.verifyFile level f) →
    k ∈ b.l0MissingFiles ∨ k ∈ b.nonL0MissingFiles
  blobFiles : ∀ m ∈ b.mutableBlobFileMetas, isMissing (b.handler.verifyBlobFile m.state.addition) →
    m.blobFileNumber ∈ b.missingBlobFiles
  high : ∀ n ∈ b.missingBlobFiles, n ≤ b.missingBlobFilesHigh

/-- Blob files that are changed were there before. -/
lemma Tracks.mem_of_getMutable (h : Tracks b) {m : MutableBlobFileMetaData}
    (hm : b.getMutable n = some m) : m ∈ b.mutableBlobFileMetas := by
  rcases getMutable_eq_some.1 hm with hfind | ⟨-, base, hbase, -⟩
  · exact mem_of_find?_eq_some hfind
  · have hmem := mem_of_find?_eq_some (show b.base.blobFiles.find? _ = some base from hbase)
    rw [h.base] at hmem
    exact absurd hmem (by simp)

/-- The blob files of a builder come from those of another one. -/
structure BlobFilesFrom (b b' : Rep K) : Prop where
  ascending : SortedMap.Ascending MutableBlobFileMetaData.blobFileNumber b'.mutableBlobFileMetas
  addition : ∀ m' ∈ b'.mutableBlobFileMetas, ∃ m ∈ b.mutableBlobFileMetas,
    m.state.addition = m'.state.addition
  missing : b'.missingBlobFiles = b.missingBlobFiles
  missingHigh : b'.missingBlobFilesHigh = b.missingBlobFilesHigh

/-- Blob files keep their additions when at most one of them is changed. -/
lemma Tracks.blobFilesFrom (h : Tracks b)
    (hblobs : b'.mutableBlobFileMetas = b.mutableBlobFileMetas ∨ ∃ n m m',
      b.getMutable n = some m ∧ m'.state.addition = m.state.addition ∧ b'.mutableBlobFileMetas =
      SortedMap.put blobFileNumber m' b.mutableBlobFileMetas)
    (missing : b'.missingBlobFiles = b.missingBlobFiles)
    (missingHigh : b'.missingBlobFilesHigh = b.missingBlobFilesHigh) : BlobFilesFrom b b' := by
  rcases hblobs with hblobs | ⟨n, m, m', hget, haddition, hblobs⟩
  · exact ⟨hblobs ▸ h.ascending, fun m' hm' => ⟨m', hblobs ▸ hm', rfl⟩, missing, missingHigh⟩
  · refine ⟨hblobs ▸ h.ascending.put m', fun m'' hm'' => ?_, missing, missingHigh⟩
    rw [hblobs] at hm''
    rcases (mem_put h.ascending).1 hm'' with rfl | ⟨hm'', -⟩
    · exact ⟨m, h.mem_of_getMutable hget, haddition.symm⟩
    · exact ⟨m'', hm'', rfl⟩

/-- The same for a change by number. -/
lemma Tracks.blobFilesFrom_modify (h : Tracks b)
    {change : MutableBlobFileMetaData → MutableBlobFileMetaData}
    (hchange : ∀ m, (change m).state.addition = m.state.addition)
    (hblobs : b'.mutableBlobFileMetas = (b.modifyBlobFile n change).mutableBlobFileMetas)
    (missing : b'.missingBlobFiles = b.missingBlobFiles)
    (missingHigh : b'.missingBlobFilesHigh = b.missingBlobFilesHigh) : BlobFilesFrom b b' := by
  refine h.blobFilesFrom ?_ missing missingHigh
  rw [hblobs, modifyBlobFile_mutableBlobs]
  split_ifs
  · exact .inl rfl
  · cases hget : b.getMutable n with
    | none => exact .inl rfl
    | some m => exact .inr ⟨n, m, change m, hget, hchange m, rfl⟩

/-- The table files are known to be missing, and the blob files come from another builder. -/
lemma Tracks.of_blobFilesFrom (h : Tracks b) (hsetup : SameSetup b b')
    (hblobs : BlobFilesFrom b b') (filesInv : FilesInv b')
    (files : ∀ {k level f}, b'.table k = some (level, f) →
      isMissing (b.handler.verifyFile level f) →
      k ∈ b'.l0MissingFiles ∨ k ∈ b'.nonL0MissingFiles) : Tracks b' := by
  refine ⟨filesInv, hsetup.track.trans h.track,
    (congrArg VersionStorageInfo.blobFiles hsetup.base).trans h.base, hblobs.ascending, ?_, ?_, ?_⟩
  · intro k level f hf hmissing
    rw [hsetup.handler] at hmissing
    exact files hf hmissing
  · intro m' hm' hmissing
    obtain ⟨m, hm, haddition⟩ := hblobs.addition m' hm'
    have hnumber : m.blobFileNumber = m'.blobFileNumber :=
      congrArg BlobFileAddition.blobFileNumber haddition
    rw [← haddition, hsetup.handler] at hmissing
    rw [← hnumber, hblobs.missing]
    exact h.blobFiles m hm hmissing
  · rw [hblobs.missing, hblobs.missingHigh]
    exact h.high

/-- A blob file is added: it is looked for at once. -/
lemma BlobFileAdded.tracks {addition : BlobFileAddition} (h : BlobFileAdded addition b b')
    (inv : Tracks b) : Tracks b' := by
  refine ⟨h.toSameFiles.filesInv inv.filesInv, h.track.trans inv.track,
    (congrArg VersionStorageInfo.blobFiles h.base).trans inv.base, ?_, ?_, ?_, ?_⟩
  · rw [h.mutableBlobs]
    exact inv.ascending.put _
  · intro k level f hf hmissing
    rw [h.toSameFiles.table] at hf
    rw [h.handler] at hmissing
    rw [h.l0Missing, h.nonL0Missing]
    exact inv.files hf hmissing
  · intro m hm hmissing
    rw [h.handler] at hmissing
    rw [h.mutableBlobs] at hm
    rw [h.missing]
    rcases (mem_put inv.ascending).1 hm with rfl | ⟨hm, -⟩
    · rw [if_pos ⟨inv.track, hmissing⟩]
      exact mem_insert_self _ _
    · have hmem := inv.blobFiles m hm hmissing
      split_ifs
      · exact mem_insert_of_mem hmem
      · exact hmem
  · rw [h.missing, h.missingHigh]
    split_ifs
    · intro n hn
      rcases mem_insert.1 hn with rfl | hn
      · exact le_max_right _ _
      · exact (inv.high n hn).trans (le_max_left _ _)
    · exact inv.high

/-- Garbage is added. -/
lemma BlobFileGarbageAdded.tracks {garbage : BlobFileGarbage}
    (h : BlobFileGarbageAdded garbage b b') (inv : Tracks b) : Tracks b' := by
  obtain ⟨m, m', hm, hm', hput⟩ := h.mutableBlobs
  have haddition : m'.state.addition = m.state.addition := by
    unfold addGarbage at hm'
    split_ifs at hm'
    cases hm'
    rfl
  have hblobs := inv.blobFilesFrom (.inr ⟨_, m, m', hm, haddition, hput⟩) h.missing h.missingHigh
  refine inv.of_blobFilesFrom h.toSameSetup hblobs (h.toSameFiles.filesInv inv.filesInv) ?_
  intro k level f hf hmissing
  rw [h.toSameFiles.table] at hf
  rw [h.l0Missing, h.nonL0Missing]
  exact inv.files hf hmissing

/-- A file changes its level off the levels that exist. -/
lemma LevelChanged.tracks {l : Option ℕ} (h : LevelChanged n l b b') (inv : Tracks b)
    (filesInv : FilesInv b') (htable : b'.table = b.table) : Tracks b' := by
  have hblobs := inv.blobFilesFrom (.inl h.mutableBlobs) h.missing h.missingHigh
  refine inv.of_blobFilesFrom h.toSameSetup hblobs filesInv ?_
  intro k level f hf hmissing
  rw [htable] at hf
  rw [h.l0Missing, h.nonL0Missing]
  exact inv.files hf hmissing

/-- A file is removed, from the missing files as well. -/
lemma FileRemoved.tracks (h : FileRemoved level n b b') (inv : Tracks b) (filesInv : FilesInv b')
    (htable : b'.table = Function.update b.table n none) : Tracks b' := by
  have hblobs := inv.blobFilesFrom_modify
    (fun m => show (m.unlinkSst n).state.addition = _ from rfl) h.mutableBlobs h.missing
    h.missingHigh
  refine inv.of_blobFilesFrom h.toSameSetup hblobs filesInv ?_
  intro k level' f hf hmissing
  by_cases hk : k = n
  · rw [hk, htable, update_self] at hf
    cases hf
  · rw [htable, update_of_ne hk] at hf
    rw [h.l0Missing, h.nonL0Missing, if_pos inv.track]
    refine (inv.files hf hmissing).imp (fun hl0 => mem_erase.2 ⟨hk, hl0⟩) fun hnonL0 => ?_
    split_ifs
    · exact mem_erase.2 ⟨hk, hnonL0⟩
    · exact hnonL0

/-- A file is inserted, and looked for. -/
lemma FileInserted.tracks {f : FileMetaData K} (h : FileInserted level f b b') (inv : Tracks b)
    (filesInv : FilesInv b')
    (htable : b'.table = Function.update b.table f.number (some (level, f))) : Tracks b' := by
  have hblobs := inv.blobFilesFrom_modify
    (fun m => show (m.linkSst f.number).state.addition = _ from rfl) h.mutableBlobs h.missing
    h.missingHigh
  refine inv.of_blobFilesFrom h.toSameSetup hblobs filesInv ?_
  intro k level' g hg hmissing
  rw [h.l0Missing, h.nonL0Missing]
  by_cases hk : k = f.number
  · rw [hk, htable, update_self] at hg
    cases hg
    by_cases hl0 : level = 0
    · rw [if_pos ⟨inv.track, hl0, hmissing⟩, hk]
      exact .inl (mem_insert_self _ _)
    · refine .inr ?_
      rw [if_pos ⟨inv.track, hl0, hmissing⟩, hk]
      exact mem_insert_self _ _
  · rw [htable, update_of_ne hk] at hg
    refine (inv.files hg hmissing).imp (fun hl0 => ?_) fun hnonL0 => ?_
    · split_ifs
      · exact mem_insert_of_mem hl0
      · exact hl0
    · split_ifs
      · exact mem_insert_of_mem hnonL0
      · exact hnonL0

/-- `ApplyFileDeletion` keeps the sets right. -/
lemma applyFileDeletion_tracks {deleted : ℕ × ℕ} (inv : Tracks b)
    (h : applyFileDeletion deleted b = (.ok, b')) : Tracks b' := by
  obtain ⟨⟨hfiles, -⟩, -⟩ := applyFileDeletion_table inv.filesInv h
  obtain ⟨hcurrent, ⟨hlevel, hstep⟩ | ⟨hlevel, hstep⟩⟩ := applyFileDeletion_ok h
  · have hoff := offLevels_of_some hcurrent hlevel
    exact hstep.tracks inv hfiles (hstep.table inv.filesInv hoff (by simp))
  · exact hstep.tracks inv hfiles (hstep.table inv.filesInv hlevel hcurrent)

/-- `ApplyFileAddition` does. -/
lemma applyFileAddition_tracks {added : ℕ × FileMetaData K} (inv : Tracks b)
    (h : applyFileAddition added b = (.ok, b')) : Tracks b' := by
  obtain ⟨⟨hfiles, -⟩, -⟩ := applyFileAddition_table inv.filesInv h
  obtain ⟨hcurrent, ⟨hlevel, hstep⟩ | ⟨hlevel, hstep⟩⟩ := applyFileAddition_ok h
  · have hafter : ∀ level', some added.1 = some level' → b.numLevels ≤ level' := by
      rintro level' ⟨⟩
      exact hlevel
    exact hstep.tracks inv hfiles
      (hstep.table inv.filesInv (offLevels_of_none hcurrent) hafter)
  · exact hstep.tracks inv hfiles (hstep.table inv.filesInv hlevel hcurrent)

/-- `Apply` does. -/
lemma apply_tracks [LinearOrder K] {edit : VersionEdit K} (inv : Tracks b)
    (h : apply edit b = (.ok, b')) : Tracks b' := by
  obtain ⟨-, b₄, hchanges, hfiles, hblobs⟩ := apply_ok h
  obtain ⟨b₁, b₂, b₃, h₁, h₂, h₃, h₄⟩ := applyChanges_ok hchanges
  have inv₁ := forEach_keeps Tracks h₁
    (fun _ _ _ _ hs hstep => (applyBlobFileAddition_ok hstep).tracks hs) inv
  have inv₂ := forEach_keeps Tracks h₂
    (fun _ _ _ _ hs hstep => (applyBlobFileGarbage_ok hstep).tracks hs) inv₁
  have inv₃ := forEach_keeps Tracks h₃
    (fun _ _ _ _ hs hstep => applyFileDeletion_tracks hs hstep) inv₂
  have inv₄ := forEach_keeps Tracks h₄
    (fun _ _ _ _ hs hstep => applyFileAddition_tracks hs hstep) inv₃
  have hblobs' := inv₄.blobFilesFrom (.inl hblobs.mutableBlobs) hblobs.missing hblobs.missingHigh
  refine inv₄.of_blobFilesFrom hfiles.toSameSetup hblobs' (hfiles.filesInv inv₄.filesInv) ?_
  intro k level f hf hmissing
  rw [hfiles.table] at hf
  rw [hfiles.l0Missing, hfiles.nonL0Missing]
  exact inv₄.files hf hmissing

/-! ## Complete versions -/

/-- The blob files that are saved come from the mutable ones. -/
lemma Tracks.mem_mergeBlobFileMetas (h : Tracks b) {first : ℕ} {entry : BlobFileEntry}
    (hentry : entry ∈ b.mergeBlobFileMetas first) :
    ∃ m ∈ b.mutableBlobFileMetas, first ≤ m.blobFileNumber ∧ saved entry = m.state := by
  rw [mergeBlobFileMetas, h.base, lowerBound, dropWhile_nil, outerJoin] at hentry
  obtain ⟨m, hm, rfl⟩ := mem_map.1 hentry
  obtain ⟨hmem, hle⟩ := (mem_lowerBound h.ascending).1 hm
  exact ⟨m, hmem, hle, rfl⟩

/-- In a complete version no blob file that is saved is missing. -/
lemma notMem_missingBlobFiles_of_complete (h : Tracks b) (complete : b.containsCompleteVersion)
    (holdest : b.getMinOldestBlobFileNumber ≠ invalidBlobFileNumber)
    (hle : b.getMinOldestBlobFileNumber ≤ n) : n ∉ b.missingBlobFiles := by
  intro hmissing
  have hhigh := h.high n hmissing
  simp only [containsCompleteVersion, Bool.and_eq_true, Bool.or_eq_true, decide_eq_true_eq]
    at complete
  rcases complete.2 with hnone | hbelow
  · have hpos : 0 < b.getMinOldestBlobFileNumber := Nat.pos_of_ne_zero holdest
    rw [hnone] at hhigh
    exact absurd hhigh (by show ¬ n ≤ 0; omega)
  · omega

variable [LinearOrder K]

/-- **Complete versions.** What a builder with a complete version saves is what it would have saved
without looking for files. -/
lemma saveVersion_of_complete (h : Tracks b) (complete : b.containsCompleteVersion)
    (requirement : EpochNumberRequirement) :
    b.saveVersion requirement = b.untracked.saveVersion requirement := by
  have hl0 : b.l0MissingFiles = ∅ := by
    simp only [containsCompleteVersion, Bool.and_eq_true, decide_eq_true_eq] at complete
    exact complete.1.1
  have hadd : ∀ level, b.maybeAddFile level = b.untracked.maybeAddFile level := by
    intro level
    funext file
    simp only [maybeAddFile, hl0, notMem_empty, decide_false, Bool.and_false]
    rfl
  have hlevel : ∀ level cmp, b.saveLevel level cmp = b.untracked.saveLevel level cmp := by
    intro level cmp
    simp only [saveLevel, hadd level]
    rfl
  have hsst : ∀ v, b.saveSSTFilesTo v = b.untracked.saveSSTFilesTo v := by
    intro v
    simp only [saveSSTFilesTo, hlevel]
    rfl
  have hblobs : ∀ v, b.saveBlobFilesTo v = b.untracked.saveBlobFilesTo v := by
    intro v
    have hold : b.untracked.getMinOldestBlobFileNumber = b.getMinOldestBlobFileNumber := rfl
    have hmerge : ∀ first, b.untracked.mergeBlobFileMetas first = b.mergeBlobFileMetas first :=
      fun _ => rfl
    simp only [saveBlobFilesTo, hold, hmerge]
    split_ifs with holdest
    · rfl
    · have hfilter : ((b.mergeBlobFileMetas b.getMinOldestBlobFileNumber).map saved).filter
          b.addBlobFileIfNeeded =
          ((b.mergeBlobFileMetas b.getMinOldestBlobFileNumber).map saved).filter
            b.untracked.addBlobFileIfNeeded := by
        refine filter_congr fun blob hblob => ?_
        obtain ⟨entry, hentry, rfl⟩ := mem_map.1 hblob
        obtain ⟨m, -, hle, hsaved⟩ := h.mem_mergeBlobFileMetas hentry
        have hpresent := notMem_missingBlobFiles_of_complete h complete holdest hle
        have hnumber : (saved entry).blobFileNumber ∉ b.missingBlobFiles := by
          rw [hsaved]
          exact hpresent
        simp only [addBlobFileIfNeeded, onlyLinkedToMissingL0Files, hl0, subset_empty]
        by_cases hlinked : (saved entry).linkedSsts = ∅ <;> simp [hlinked, hnumber, untracked]
      rw [hfilter]
  simp only [saveVersion, saveTo, hsst, hblobs]
  rfl

/-- The files of a version are there. -/
structure AllPresent (handler : FileVerifier K) (v : VersionStorageInfo K) : Prop where
  files : ∀ level, ∀ f ∈ v.levelFiles level, ¬ isMissing (handler.verifyFile level f)
  blobFiles : ∀ blob ∈ v.blobFiles, ¬ isMissing (handler.verifyBlobFile blob.addition)

/-- Without missing files all files of the saved version are there. -/
lemma allPresent_of_complete (h : Tracks b) (complete : b.containsCompleteVersion)
    (requirement : EpochNumberRequirement) : AllPresent b.handler (b.saveVersion requirement) := by
  refine ⟨fun level f hf hmissing => ?_, fun blob hblob hmissing => ?_⟩
  · rw [h.filesInv.mem_saveVersion] at hf
    simp only [containsCompleteVersion, Bool.and_eq_true, decide_eq_true_eq] at complete
    have hmem := h.files (table_of_savedTable hf) hmissing
    rw [complete.1.1, complete.1.2] at hmem
    simp at hmem
  · rw [saveVersion_blobFiles] at hblob
    split_ifs at hblob with holdest
    · exact absurd hblob (by simp)
    · obtain ⟨entry, hentry, rfl⟩ := mem_map.1 (mem_filter.1 hblob).1
      obtain ⟨m, hm, hle, hsaved⟩ := h.mem_mergeBlobFileMetas hentry
      rw [hsaved] at hmissing
      exact notMem_missingBlobFiles_of_complete h complete holdest hle (h.blobFiles m hm hmissing)

end Rep

end BucketLSM.Manifest
