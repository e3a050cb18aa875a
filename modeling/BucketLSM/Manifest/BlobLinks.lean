import BucketLSM.Manifest.VersionFold

/-!
# Links between table files and blob files

A blob file keeps the numbers of the table files whose oldest blob file it is. A builder changes
these links with every table file that is added or deleted, as a change of the base version; when
a version is saved, blob files older than the first one with links are dropped. With no files
missing, the links of a version that is saved are those of its table files.
-/

namespace BucketLSM.Manifest

open Finset Option List SortedMap Function BucketLSM.Manifest.Rep MutableBlobFileMetaData

variable {K : Type}

/-! ## Changes of links -/

/-- The links of a blob file are those of the base with the changes. -/
structure DeltaInv (base : BlobFileMetaData) (m : MutableBlobFileMetaData) : Prop where
  linked : ∀ k, k ∈ m.state.linkedSsts ↔
    k ∈ base.linkedSsts ∧ k ∉ m.delta.newlyUnlinkedSsts ∨ k ∈ m.delta.newlyLinkedSsts
  unlinked : ∀ k ∈ m.delta.newlyUnlinkedSsts, k ∈ base.linkedSsts
  new : ∀ k ∈ m.delta.newlyLinkedSsts, k ∉ base.linkedSsts

namespace DeltaInv

variable {base : BlobFileMetaData} {m : MutableBlobFileMetaData} {n : ℕ}

lemma start (base : BlobFileMetaData) : DeltaInv base { state := base } :=
  ⟨by simp, by simp, by simp⟩

section

variable (h : DeltaInv base m)

include h

lemma linkSst (hn : n ∉ m.state.linkedSsts) : DeltaInv base (m.linkSst n) := by
  obtain ⟨linked, unlinked, new⟩ := h
  rw [linked] at hn
  unfold MutableBlobFileMetaData.linkSst BlobFileMetaDataDelta.linkSst
  split_ifs with hunlinked
  · refine ⟨fun k => ?_, fun k hk => unlinked k (mem_of_mem_erase hk), new⟩
    have hbase := unlinked n hunlinked
    simp only [mem_insert, mem_erase, linked]
    grind
  · refine ⟨fun k => ?_, unlinked, fun k hk => ?_⟩
    · simp only [mem_insert, linked]
      grind
    · rcases mem_insert.1 hk with rfl | hk
      · exact fun hbase => hn (.inl ⟨hbase, hunlinked⟩)
      · exact new k hk

lemma unlinkSst (hn : n ∈ m.state.linkedSsts) : DeltaInv base (m.unlinkSst n) := by
  obtain ⟨linked, unlinked, new⟩ := h
  rw [linked] at hn
  unfold MutableBlobFileMetaData.unlinkSst BlobFileMetaDataDelta.unlinkSst
  split_ifs with hlinked
  · refine ⟨fun k => ?_, unlinked, fun k hk => new k (mem_of_mem_erase hk)⟩
    have hbase := new n hlinked
    simp only [mem_erase, linked]
    grind
  · have hbase := hn.resolve_right hlinked
    refine ⟨fun k => ?_, fun k hk => ?_, new⟩
    · simp only [mem_insert, mem_erase, linked]
      grind
    · rcases mem_insert.1 hk with rfl | hk
      · exact hbase.1
      · exact unlinked k hk

lemma addGarbage {count bytes : UInt64} {m' : MutableBlobFileMetaData}
    (hm : m.addGarbage count bytes = some m') : DeltaInv base m' := by
  unfold MutableBlobFileMetaData.addGarbage at hm
  split_ifs at hm
  cases hm
  exact ⟨h.linked, h.unlinked, h.new⟩

/-- A blob file without changes has the links of the base. -/
lemma linkedSsts_eq (hdelta : m.hasDelta = false) : m.state.linkedSsts = base.linkedSsts := by
  simp only [hasDelta, BlobFileMetaDataDelta.isEmpty, Bool.not_eq_false',
    Bool.and_eq_true, decide_eq_true_eq] at hdelta
  ext k
  rw [h.linked, hdelta.1.2, hdelta.2]
  simp

end

end DeltaInv

lemma addGarbage_spec {m m' : MutableBlobFileMetaData} {count bytes : UInt64}
    (h : m.addGarbage count bytes = some m') :
    m'.blobFileNumber = m.blobFileNumber ∧ m'.state.linkedSsts = m.state.linkedSsts := by
  unfold addGarbage at h
  split_ifs at h
  cases h
  exact ⟨rfl, rfl⟩

/-! ## The blob files of a builder -/

namespace Rep

/-- The builder has a blob file with the number, from the base or from the edits. -/
def HasBlobFile (b : Rep K) (n : ℕ) : Prop := (b.getMutable n).isSome

variable {b b' : Rep K} {m : MutableBlobFileMetaData} {n level : ℕ}

lemma getMutable_eq_some : b.getMutable n = some m ↔ b.findMutable n = some m ∨
      b.findMutable n = none ∧ ∃ base, b.base.getBlobFileMetaData n = some base ∧
        m = { state := base } := by
  unfold getMutable
  cases hfind : b.findMutable n with
  | some m' => simp
  | none =>
    simp only [map_eq_some_iff, true_and, reduceCtorEq, false_or]
    constructor
    · rintro ⟨base, hbase, rfl⟩
      exact ⟨base, hbase, rfl⟩
    · rintro ⟨base, hbase, rfl⟩
      exact ⟨base, hbase, rfl⟩

lemma number_of_findMutable (h : b.findMutable n = some m) : m.blobFileNumber = n := by
  simpa using find?_some h

lemma number_of_getBlobFileMetaData {v : VersionStorageInfo K} {blob : BlobFileMetaData}
    (h : v.getBlobFileMetaData n = some blob) : blob.blobFileNumber = n := by
  simpa using find?_some h

lemma number_of_getMutable (h : b.getMutable n = some m) : m.blobFileNumber = n := by
  rcases getMutable_eq_some.1 h with hfind | ⟨-, base, hbase, rfl⟩
  · exact number_of_findMutable hfind
  · exact number_of_getBlobFileMetaData hbase

lemma isBlobFileInVersion_eq : b.isBlobFileInVersion n = (b.getMutable n).isSome := by
  unfold isBlobFileInVersion getMutable
  cases b.findMutable n <;> simp

/-- The table file with the number `k` names the blob file `n`. -/
def Linked (b : Rep K) (k n : ℕ) : Prop := ∃ level f, b.table k = some (level, f) ∧ Names f n

/-- The links a builder keeps are those of its table files. -/
structure BlobInv (b : Rep K) : Prop where
  baseAscending : Ascending BlobFileMetaData.blobFileNumber b.base.blobFiles
  ascending : Ascending blobFileNumber b.mutableBlobFileMetas
  linked : ∀ {n m}, b.getMutable n = some m → ∀ k, k ∈ m.state.linkedSsts ↔ b.Linked k n
  delta : ∀ {n m base}, b.getMutable n = some m → b.base.getBlobFileMetaData n = some base →
    DeltaInv base m
  known : ∀ {k n}, b.Linked k n → b.HasBlobFile n
  missing : ∀ n ∈ b.missingBlobFiles, n ≤ b.missingBlobFilesHigh ∧ (b.findMutable n).isSome

/-- The blob file with the number of `m` is changed to `m`, or entered. -/
structure BlobPut (m : MutableBlobFileMetaData) (b b' : Rep K) : Prop where
  base : b'.base = b.base
  mutableBlobs : b'.mutableBlobFileMetas =
    put blobFileNumber m b.mutableBlobFileMetas

section

variable (h : BlobPut m b b') (inv : BlobInv b)

include h inv

lemma BlobPut.findMutable (n : ℕ) :
    b'.findMutable n = if m.blobFileNumber = n then some m else b.findMutable n := by
  rw [Rep.findMutable, h.mutableBlobs, SortedMap.find_put inv.ascending, Rep.findMutable]

lemma BlobPut.getMutable (n : ℕ) :
    b'.getMutable n = if m.blobFileNumber = n then some m else b.getMutable n := by
  unfold Rep.getMutable
  rw [h.findMutable inv, h.base]
  split_ifs <;> rfl

lemma BlobPut.hasBlobFile (hn : b.HasBlobFile n) : b'.HasBlobFile n := by
  unfold HasBlobFile
  rw [h.getMutable inv]
  split_ifs
  · rfl
  · exact hn

/-- The invariant after a change of one blob file, if the links of the others are not changed. -/
lemma BlobPut.blobInv (hlinked : ∀ k, k ∈ m.state.linkedSsts ↔ b'.Linked k m.blobFileNumber)
    (hother : ∀ n, n ≠ m.blobFileNumber → ∀ k, b'.Linked k n ↔ b.Linked k n)
    (hdelta : ∀ base, b.base.getBlobFileMetaData m.blobFileNumber = some base → DeltaInv base m)
    (hmissing : ∀ n ∈ b'.missingBlobFiles, n ≤ b'.missingBlobFilesHigh ∧ (b'.findMutable n).isSome)
    : BlobInv b' := by
  refine ⟨h.base ▸ inv.baseAscending, ?_, ?_, ?_, ?_, hmissing⟩
  · rw [h.mutableBlobs]
    exact inv.ascending.put m
  · intro n m' hm' k
    rw [h.getMutable inv] at hm'
    split_ifs at hm' with heq
    · cases hm'
      rw [← heq]
      exact hlinked k
    · rw [hother n (Ne.symm heq)]
      exact inv.linked hm' k
  · intro n m' base hm' hbase
    rw [h.getMutable inv] at hm'
    rw [h.base] at hbase
    split_ifs at hm' with heq
    · cases hm'
      exact hdelta base (heq ▸ hbase)
    · exact inv.delta hm' hbase
  · intro k n hk
    by_cases heq : n = m.blobFileNumber
    · rw [HasBlobFile, h.getMutable inv, if_pos heq.symm]
      rfl
    · exact h.hasBlobFile inv (inv.known ((hother n heq k).1 hk))

end

lemma BlobFileAdded.blobPut {addition : BlobFileAddition} (h : BlobFileAdded addition b b') :
    BlobPut { state := ⟨addition.blobFileNumber, addition.totalBlobCount, addition.totalBlobBytes,
      ∅, 0, 0⟩ } b b' :=
  ⟨h.base, h.mutableBlobs⟩

lemma SameFiles.linked (h : SameFiles b b') (k n : ℕ) : b'.Linked k n ↔ b.Linked k n := by
  rw [Linked, h.table, Linked]

lemma BlobFileAdded.blobInv {addition : BlobFileAddition} (h : BlobFileAdded addition b b')
    (inv : BlobInv b) : BlobInv b' := by
  have hnew : ¬ b.HasBlobFile addition.blobFileNumber := by
    rw [HasBlobFile, ← isBlobFileInVersion_eq, h.new]
    simp
  refine h.blobPut.blobInv inv (fun k => ?_) (fun n _ k => h.toSameFiles.linked k n) ?_ ?_
  · refine ⟨fun hk => absurd hk (by simp), fun hk => ?_⟩
    -- no table file names a blob file that is not there
    exact absurd (inv.known ((h.toSameFiles.linked k _).1 hk)) hnew
  · intro base hbase
    refine absurd ?_ hnew
    rw [HasBlobFile, ← isBlobFileInVersion_eq, isBlobFileInVersion]
    simp [show b.base.getBlobFileMetaData addition.blobFileNumber = some base from hbase]
  · intro n hn
    rw [h.blobPut.findMutable inv]
    rw [h.missing] at hn
    rw [h.missingHigh]
    split_ifs at hn ⊢ with hmissing heq
    · rcases mem_insert.1 hn with rfl | hn
      · exact ⟨le_max_right _ _, rfl⟩
      · exact ⟨(inv.missing n hn).1.trans (le_max_left _ _), rfl⟩
    · rcases mem_insert.1 hn with rfl | hn
      · exact absurd rfl heq
      · exact ⟨(inv.missing n hn).1.trans (le_max_left _ _), (inv.missing n hn).2⟩
    · exact ⟨(inv.missing n hn).1, rfl⟩
    · exact inv.missing n hn

lemma BlobFileGarbageAdded.blobInv {garbage : BlobFileGarbage}
    (h : BlobFileGarbageAdded garbage b b') (inv : BlobInv b) : BlobInv b' := by
  obtain ⟨m, m', hm, hm', hput⟩ := h.mutableBlobs
  have hblob : BlobPut m' b b' := ⟨h.base, hput⟩
  obtain ⟨hnumber, hlinked⟩ := addGarbage_spec hm'
  have hn : m'.blobFileNumber = garbage.blobFileNumber :=
    hnumber.trans (number_of_getMutable hm)
  refine hblob.blobInv inv (fun k => ?_) (fun n _ k => h.toSameFiles.linked k n) ?_ ?_
  · rw [hlinked, hn, h.toSameFiles.linked]
    exact inv.linked hm k
  · intro base hbase
    exact (inv.delta hm (hn ▸ hbase)).addGarbage hm'
  · intro n hn'
    rw [h.missing] at hn'
    rw [hblob.findMutable inv, h.missingHigh]
    split_ifs
    · exact ⟨(inv.missing n hn').1, rfl⟩
    · exact inv.missing n hn'

lemma BlobInv.congr (inv : BlobInv b) (hbase : b'.base = b.base)
    (hlinked : ∀ k n, b'.Linked k n ↔ b.Linked k n) (hblobs : SameBlobFiles b b') : BlobInv b' := by
  have hfind : ∀ n, b'.findMutable n = b.findMutable n := fun n => by
    rw [findMutable, hblobs.mutableBlobs, findMutable]
  have hget : ∀ n, b'.getMutable n = b.getMutable n := fun n => by
    rw [getMutable, hfind, hbase, getMutable]
  obtain ⟨baseAscending, ascending, linked, delta, known, missing⟩ := inv
  refine ⟨hbase ▸ baseAscending, hblobs.mutableBlobs ▸ ascending, ?_, ?_, ?_, ?_⟩
  · intro n m hm k
    rw [hlinked]
    exact linked ((hget n).symm.trans hm) k
  · intro n m base hm hb
    rw [hbase] at hb
    exact delta ((hget n).symm.trans hm) hb
  · intro k n hk
    rw [HasBlobFile, hget]
    exact known ((hlinked k n).1 hk)
  · intro n hn
    rw [hfind, hblobs.missingHigh]
    exact missing n (hblobs.missing ▸ hn)

/-- A change of a blob file that a table file names enters it, or does nothing if none is named. -/
lemma modifyBlobFile_cases (b : Rep K) (n : ℕ)
    (change : MutableBlobFileMetaData → MutableBlobFileMetaData)
    (h : n ≠ invalidBlobFileNumber → b.HasBlobFile n) : n = invalidBlobFileNumber ∧
      (b.modifyBlobFile n change).mutableBlobFileMetas = b.mutableBlobFileMetas ∨
    n ≠ invalidBlobFileNumber ∧ ∃ m, b.getMutable n = some m ∧
      (b.modifyBlobFile n change).mutableBlobFileMetas =
        put blobFileNumber (change m) b.mutableBlobFileMetas := by
  rw [modifyBlobFile_mutableBlobs]
  by_cases hn : n = invalidBlobFileNumber
  · exact .inl ⟨hn, if_pos hn⟩
  · obtain ⟨m, hm⟩ := isSome_iff_exists.1 (h hn)
    exact .inr ⟨hn, m, hm, by rw [if_neg hn, hm]; rfl⟩

/-- The blob file that is unlinked is the one the file names. -/
lemma FilesInv.getOldestBlobFileNumber (inv : FilesInv b) {f : FileMetaData K}
    (hf : b.table n = some (level, f)) :
    b.getOldestBlobFileNumberForTableFile level n = f.oldestBlobFileNumber := by
  unfold getOldestBlobFileNumberForTableFile
  rcases inv.table_eq_some.1 hf with ⟨hlevel, hbase, hn⟩ | hadded
  · have hnone : (b.levels level).findAdded n = none := by
      refine findAdded_eq_none.2 fun g hg hnumber => ?_
      have hl := (inv.added hg).2
      rw [hnumber, hlevel] at hl
      cases hl
    rw [hnone, inv.distinct.findFile_eq_some.2 ⟨hbase, hn⟩]
  · rw [(findAdded_eq_some (inv.once level)).2 hadded]

lemma FilesInv.exists_table (inv : FilesInv b) (hlevel : level < b.numLevels)
    (hcurrent : b.getCurrentLevelForTableFile n = some level) :
    ∃ f, b.table n = some (level, f) := by
  cases hl : b.tableFileLevels n with
  | none =>
    rw [getCurrentLevelForTableFile, hl] at hcurrent
    obtain ⟨⟨level', f⟩, hf, rfl⟩ := map_eq_some_iff.1 hcurrent
    exact ⟨f, by rw [table, hl]; exact hf⟩
  | some l =>
    rw [current_of_tableFileLevels hl] at hcurrent
    subst hcurrent
    obtain ⟨f, hf, rfl⟩ := inv.present hl hlevel
    exact ⟨f, inv.table_eq_some.2 (.inr ⟨hf, rfl⟩)⟩

/-- The table file with the number `k` gains or loses its link to a blob file, and the other table
files stay: the invariant is kept by the change of the links of that blob file. -/
lemma BlobInv.relink {k blob : ℕ} {change : MutableBlobFileMetaData → MutableBlobFileMetaData}
    (inv : BlobInv b) (hbase : b'.base = b.base)
    (hmutable : b'.mutableBlobFileMetas = (b.modifyBlobFile blob change).mutableBlobFileMetas)
    (hmissing : b'.missingBlobFiles = b.missingBlobFiles)
    (hhigh : b'.missingBlobFilesHigh = b.missingBlobFilesHigh)
    (hhas : blob ≠ invalidBlobFileNumber → b.HasBlobFile blob)
    (hothers : ∀ k' n, k' ≠ k → (b'.Linked k' n ↔ b.Linked k' n))
    (hself : ∀ n, blob = invalidBlobFileNumber ∨ n ≠ blob → (b'.Linked k n ↔ b.Linked k n))
    (hchange : blob ≠ invalidBlobFileNumber → ∀ m, b.getMutable blob = some m →
      (change m).blobFileNumber = m.blobFileNumber ∧
      (∀ k', k' ∈ (change m).state.linkedSsts ↔ b'.Linked k' blob) ∧
      ∀ base, DeltaInv base m → DeltaInv base (change m)) : BlobInv b' := by
  have hsame : ∀ n, blob = invalidBlobFileNumber ∨ n ≠ blob →
      ∀ k', b'.Linked k' n ↔ b.Linked k' n := by
    intro n hn k'
    by_cases hk : k' = k
    · exact hk ▸ hself n hn
    · exact hothers k' n hk
  rcases b.modifyBlobFile_cases blob change hhas with ⟨hnone, hput⟩ | ⟨hvalid, m, hm, hput⟩
  · exact inv.congr hbase (fun k' n => hsame n (.inl hnone) k')
      ⟨hmutable.trans hput, hmissing, hhigh⟩
  · obtain ⟨hnumber, hlinked, hdelta⟩ := hchange hvalid m hm
    have hn : (change m).blobFileNumber = blob := hnumber.trans (number_of_getMutable hm)
    have hblob : BlobPut (change m) b b' := ⟨hbase, hmutable.trans hput⟩
    refine hblob.blobInv inv (fun k' => ?_) (fun n hne => hsame n (.inr (hn ▸ hne)))
      (fun base hb => hdelta base (inv.delta hm (hn ▸ hb))) fun n hmem => ?_
    · rw [hn]
      exact hlinked k'
    · rw [hmissing] at hmem
      rw [hblob.findMutable inv, hhigh]
      split_ifs
      · exact ⟨(inv.missing n hmem).1, rfl⟩
      · exact inv.missing n hmem

lemma FileRemoved.blobInv (h : FileRemoved level n b b') (inv : FilesInv b) (blobInv : BlobInv b)
    (hlevel : level < b.numLevels) (hcurrent : b.getCurrentLevelForTableFile n = some level) :
    BlobInv b' := by
  obtain ⟨f, hf⟩ := inv.exists_table hlevel hcurrent
  have htable := h.table inv hlevel hcurrent
  have hafter : ∀ blob, ¬ b'.Linked n blob := by
    rintro blob ⟨level', g, hg, -⟩
    rw [htable, update_self] at hg
    cases hg
  have hothers : ∀ k blob, k ≠ n → (b'.Linked k blob ↔ b.Linked k blob) := by
    intro k blob hk
    rw [Linked, htable, update_of_ne hk, Linked]
  have hlinked : ∀ blob, b.Linked n blob ↔ Names f blob := by
    refine fun blob => ⟨?_, fun hname => ⟨level, f, hf, hname⟩⟩
    rintro ⟨level', g, hg, hname⟩
    rw [hf] at hg
    cases hg
    exact hname
  have hmutable := h.mutableBlobs
  rw [inv.getOldestBlobFileNumber hf] at hmutable
  refine blobInv.relink h.base hmutable h.missing h.missingHigh
    (fun hvalid => blobInv.known ((hlinked _).2 ⟨rfl, hvalid⟩)) hothers (fun blob hblob => ?_)
    fun hvalid m hm => ⟨rfl, fun k => ?_, fun base hdelta => hdelta.unlinkSst
      ((blobInv.linked hm n).2 ((hlinked _).2 ⟨rfl, hvalid⟩))⟩
  · refine iff_of_false (hafter blob) fun hc => ?_
    obtain ⟨rfl, hvalid⟩ := (hlinked blob).1 hc
    exact hblob.elim hvalid fun hne => hne rfl
  · by_cases hk : k = n
    · subst hk
      exact iff_of_false (notMem_erase k _) (hafter _)
    · rw [hothers k _ hk, ← blobInv.linked hm]
      exact mem_erase.trans (and_iff_right hk)

lemma FileInserted.blobInv {f : FileMetaData K} (h : FileInserted level f b b')
    (inv : FilesInv b) (blobInv : BlobInv b) (hlevel : level < b.numLevels)
    (hcurrent : b.getCurrentLevelForTableFile f.number = none)
    (hblobFile : f.oldestBlobFileNumber ≠ invalidBlobFileNumber →
      b.HasBlobFile f.oldestBlobFileNumber) : BlobInv b' := by
  have htable := h.table inv hlevel hcurrent
  have hafter : ∀ blob, b'.Linked f.number blob ↔ Names f blob := by
    intro blob
    rw [Linked, htable, update_self]
    constructor
    · rintro ⟨level', g, hg, hname⟩
      cases hg
      exact hname
    · exact fun hname => ⟨level, f, rfl, hname⟩
  have hothers : ∀ k blob, k ≠ f.number → (b'.Linked k blob ↔ b.Linked k blob) := by
    intro k blob hk
    rw [Linked, htable, update_of_ne hk, Linked]
  have hbefore : ∀ blob, ¬ b.Linked f.number blob := by
    rintro blob ⟨level', g, hg, -⟩
    rw [(offLevels_of_none hcurrent).table inv] at hg
    cases hg
  refine blobInv.relink h.base h.mutableBlobs h.missing h.missingHigh hblobFile hothers
    (fun blob hblob => ?_) fun hvalid m hm => ⟨rfl, fun k => ?_, fun base hdelta => hdelta.linkSst
      fun hc => hbefore _ ((blobInv.linked hm f.number).1 hc)⟩
  · refine iff_of_false (fun hc => ?_) (hbefore blob)
    obtain ⟨rfl, hvalid⟩ := (hafter blob).1 hc
    exact hblob.elim hvalid fun hne => hne rfl
  · by_cases hk : k = f.number
    · subst hk
      exact iff_of_true (mem_insert_self _ _) ((hafter _).2 ⟨rfl, hvalid⟩)
    · rw [hothers k _ hk, ← blobInv.linked hm]
      exact mem_insert.trans (or_iff_right hk)

/-! ### Edits -/

/-- What the builder knows about table files and blob files. -/
structure Inv (b : Rep K) : Prop where
  files : FilesInv b
  blobs : BlobInv b

/-- No blob file is lost. -/
def KeepsBlobFiles (b b' : Rep K) : Prop := ∀ n, b.HasBlobFile n → b'.HasBlobFile n

lemma applyFileDeletion_inv {deleted : ℕ × ℕ} (inv : Inv b)
    (h : applyFileDeletion deleted b = (.ok, b')) : Inv b' := by
  obtain ⟨⟨hfiles, -⟩, -⟩ := applyFileDeletion_table inv.files h
  refine ⟨hfiles, ?_⟩
  obtain ⟨hcurrent, ⟨hlevel, hstep⟩ | ⟨hlevel, hstep⟩⟩ := applyFileDeletion_ok h
  · have hoff := offLevels_of_some hcurrent hlevel
    refine inv.blobs.congr hstep.base (fun k n => ?_) hstep.toSameBlobFiles
    rw [Linked, hstep.table inv.files hoff (by simp), Linked]
  · exact hstep.blobInv inv.files inv.blobs hlevel hcurrent

lemma applyFileAddition_inv {added : ℕ × FileMetaData K} (inv : Inv b)
    (hblobFile : added.2.oldestBlobFileNumber ≠ invalidBlobFileNumber →
      b.HasBlobFile added.2.oldestBlobFileNumber) (h : applyFileAddition added b = (.ok, b')) :
    Inv b' := by
  obtain ⟨⟨hfiles, -⟩, -⟩ := applyFileAddition_table inv.files h
  refine ⟨hfiles, ?_⟩
  obtain ⟨hcurrent, ⟨hlevel, hstep⟩ | ⟨hlevel, hstep⟩⟩ := applyFileAddition_ok h
  · refine inv.blobs.congr hstep.base (fun k n => ?_) hstep.toSameBlobFiles
    have hafter : ∀ level', some added.1 = some level' → b.numLevels ≤ level' := by
      rintro level' ⟨⟩
      exact hlevel
    rw [Linked, hstep.table inv.files (offLevels_of_none hcurrent) hafter, Linked]
  · exact hstep.blobInv inv.files inv.blobs hlevel hcurrent hblobFile

lemma keepsBlobFiles_of_put (inv : BlobInv b) (hbase : b'.base = b.base)
    (h : b'.mutableBlobFileMetas = b.mutableBlobFileMetas ∨ ∃ m, b'.mutableBlobFileMetas =
      put blobFileNumber m b.mutableBlobFileMetas) : KeepsBlobFiles b b' := by
  intro n hn
  rcases h with hsame | ⟨m, hput⟩
  · rw [HasBlobFile, getMutable, findMutable, hsame, hbase]
    exact hn
  · exact BlobPut.hasBlobFile ⟨hbase, hput⟩ inv hn

lemma modifyBlobFile_put (b : Rep K) (n : ℕ)
    (change : MutableBlobFileMetaData → MutableBlobFileMetaData) :
    (b.modifyBlobFile n change).mutableBlobFileMetas = b.mutableBlobFileMetas ∨
    ∃ m, (b.modifyBlobFile n change).mutableBlobFileMetas =
      put blobFileNumber m b.mutableBlobFileMetas := by
  rw [modifyBlobFile_mutableBlobs]
  split_ifs
  · exact .inl rfl
  · cases b.getMutable n with
    | none => exact .inl rfl
    | some m => exact .inr ⟨change m, rfl⟩

lemma applyFileDeletion_keepsBlobFiles {deleted : ℕ × ℕ} (inv : BlobInv b)
    (h : applyFileDeletion deleted b = (.ok, b')) : KeepsBlobFiles b b' := by
  obtain ⟨-, ⟨-, hstep⟩ | ⟨-, hstep⟩⟩ := applyFileDeletion_ok h
  · exact keepsBlobFiles_of_put inv hstep.base (.inl hstep.mutableBlobs)
  · refine keepsBlobFiles_of_put inv hstep.base ?_
    rw [hstep.mutableBlobs]
    exact b.modifyBlobFile_put _ _

lemma applyFileAddition_keepsBlobFiles {added : ℕ × FileMetaData K} (inv : BlobInv b)
    (h : applyFileAddition added b = (.ok, b')) : KeepsBlobFiles b b' := by
  obtain ⟨-, ⟨-, hstep⟩ | ⟨-, hstep⟩⟩ := applyFileAddition_ok h
  · exact keepsBlobFiles_of_put inv hstep.base (.inl hstep.mutableBlobs)
  · refine keepsBlobFiles_of_put inv hstep.base ?_
    rw [hstep.mutableBlobs]
    exact b.modifyBlobFile_put _ _

/-- The blob files of an edit are there once they are all added. -/
lemma forEach_applyBlobFileAddition {additions : List BlobFileAddition} (inv : Inv b)
    (h : forEach applyBlobFileAddition additions b = (.ok, b')) : Inv b' ∧ KeepsBlobFiles b b' ∧
    ∀ addition ∈ additions, b'.HasBlobFile addition.blobFileNumber := by
  induction additions generalizing b with
  | nil =>
    cases h
    exact ⟨inv, fun _ => id, by simp⟩
  | cons addition additions ih =>
    obtain ⟨b₁, hstep, h⟩ := forEach_cons h
    have hadded := applyBlobFileAddition_ok hstep
    have inv₁ : Inv b₁ := ⟨hadded.toSameFiles.filesInv inv.files, hadded.blobInv inv.blobs⟩
    obtain ⟨inv', hkeeps, hall⟩ := ih inv₁ h
    refine ⟨inv', fun n hn => hkeeps n (hadded.blobPut.hasBlobFile inv.blobs hn), fun x hx => ?_⟩
    rcases mem_cons.1 hx with rfl | hx
    · apply hkeeps
      rw [HasBlobFile, hadded.blobPut.getMutable inv.blobs]
      simp [blobFileNumber]
    · exact hall x hx

section Changes

variable {edit : VersionEdit K} (inv : Inv b)
  (hblobFiles : ∀ added ∈ edit.newFiles, added.2.oldestBlobFileNumber ≠ invalidBlobFileNumber →
    b.HasBlobFile added.2.oldestBlobFileNumber ∨ ∃ addition ∈ edit.blobFileAdditions,
      addition.blobFileNumber = added.2.oldestBlobFileNumber)

include inv hblobFiles

lemma applyChanges_inv (h : applyChanges edit b = (.ok, b')) : Inv b' ∧ KeepsBlobFiles b b' ∧
    ∀ addition ∈ edit.blobFileAdditions, b'.HasBlobFile addition.blobFileNumber := by
  obtain ⟨b₁, b₂, b₃, h₁, h₂, h₃, h₄⟩ := applyChanges_ok h
  obtain ⟨inv₁, hkeeps₁, hadded⟩ := forEach_applyBlobFileAddition inv h₁
  obtain ⟨inv₂, hkeeps₂⟩ := forEach_keeps (fun s => Inv s ∧ KeepsBlobFiles b₁ s) h₂
    (fun garbage _ s s' hs hstep => by
      have hgarbage := applyBlobFileGarbage_ok hstep
      obtain ⟨m, m', -, -, hput⟩ := hgarbage.mutableBlobs
      exact ⟨⟨hgarbage.toSameFiles.filesInv hs.1.files, hgarbage.blobInv hs.1.blobs⟩,
        fun n hn => keepsBlobFiles_of_put hs.1.blobs hgarbage.base (.inr ⟨m', hput⟩) n
          (hs.2 n hn)⟩) ⟨inv₁, fun _ => id⟩
  obtain ⟨inv₃, hkeeps₃⟩ := forEach_keeps (fun s => Inv s ∧ KeepsBlobFiles b₁ s) h₃
    (fun deleted _ s s' hs hstep => ⟨applyFileDeletion_inv hs.1 hstep, fun n hn =>
      applyFileDeletion_keepsBlobFiles hs.1.blobs hstep n (hs.2 n hn)⟩) ⟨inv₂, hkeeps₂⟩
  obtain ⟨inv₄, hkeeps₄⟩ := forEach_keeps (fun s => Inv s ∧ KeepsBlobFiles b₁ s) h₄
    (fun added hmem s s' hs hstep => by
      refine ⟨applyFileAddition_inv hs.1 (fun hvalid => hs.2 _ ?_) hstep, fun n hn =>
        applyFileAddition_keepsBlobFiles hs.1.blobs hstep n (hs.2 n hn)⟩
      rcases hblobFiles added hmem hvalid with hbefore | ⟨addition, haddition, hnumber⟩
      · exact hkeeps₁ _ hbefore
      · exact hnumber ▸ hadded addition haddition) ⟨inv₃, hkeeps₃⟩
  exact ⟨inv₄, fun n hn => hkeeps₄ n (hkeeps₁ n hn), fun addition haddition =>
    hkeeps₄ _ (hadded addition haddition)⟩

lemma apply_inv [LinearOrder K] (h : apply edit b = (.ok, b')) : Inv b' ∧ KeepsBlobFiles b b' ∧
    ∀ addition ∈ edit.blobFileAdditions, b'.HasBlobFile addition.blobFileNumber := by
  obtain ⟨-, b₁, hchanges, hfiles, hblobs⟩ := apply_ok h
  obtain ⟨inv₁, hkeeps, hadded⟩ := applyChanges_inv inv hblobFiles hchanges
  have hsame := keepsBlobFiles_of_put inv₁.blobs hfiles.base (.inl hblobs.mutableBlobs)
  exact ⟨⟨hfiles.filesInv inv₁.files, inv₁.blobs.congr hfiles.base hfiles.linked hblobs⟩,
    fun n hn => hsame n (hkeeps n hn), fun addition haddition =>
      hsame _ (hadded addition haddition)⟩

end Changes

/-! ### What is saved -/

/-- An entry of the merge is a blob file of the builder; the version gets its links. -/
structure EntryOf (b : Rep K) (n : ℕ) (entry : BlobFileEntry) : Prop where
  current : ∃ m, b.getMutable n = some m ∧ current entry = m.state
  number : (saved entry).blobFileNumber = n
  linkedSsts : (saved entry).linkedSsts = (Rep.current entry).linkedSsts
  key : entry.key BlobFileMetaData.blobFileNumber MutableBlobFileMetaData.blobFileNumber = n

section

variable (inv : BlobInv b)

include inv

lemma entryOf_left {base : BlobFileMetaData} (hbase : base ∈ b.base.blobFiles)
    (hnone : b.findMutable base.blobFileNumber = none) :
    EntryOf b base.blobFileNumber (.left base) := by
  have hget : b.base.getBlobFileMetaData base.blobFileNumber = some base :=
    (find_eq_some inv.baseAscending).2 ⟨hbase, rfl⟩
  exact ⟨⟨_, getMutable_eq_some.2 (.inr ⟨hnone, base, hget, rfl⟩), rfl⟩, rfl, rfl, rfl⟩

lemma entryOf_right (hm : m ∈ b.mutableBlobFileMetas) : EntryOf b m.blobFileNumber (.right m) := by
  have hfind : b.findMutable m.blobFileNumber = some m :=
    (find_eq_some inv.ascending).2 ⟨hm, rfl⟩
  exact ⟨⟨m, getMutable_eq_some.2 (.inl hfind), rfl⟩, rfl, rfl, rfl⟩

lemma entryOf_both {base : BlobFileMetaData} (hbase : base ∈ b.base.blobFiles)
    (hm : m ∈ b.mutableBlobFileMetas) (hnumber : base.blobFileNumber = m.blobFileNumber) :
    EntryOf b m.blobFileNumber (.both base m) := by
  have hfind : b.findMutable m.blobFileNumber = some m :=
    (find_eq_some inv.ascending).2 ⟨hm, rfl⟩
  have hget : b.base.getBlobFileMetaData m.blobFileNumber = some base :=
    (find_eq_some inv.baseAscending).2 ⟨hbase, hnumber⟩
  have hmutable := getMutable_eq_some.2 (.inl hfind)
  refine ⟨⟨m, hmutable, rfl⟩, ?_, ?_, hnumber⟩
  · rw [saved]
    split_ifs
    · rfl
    · exact hnumber
  · rw [saved]
    split_ifs with hdelta
    · rfl
    · exact ((inv.delta hmutable hget).linkedSsts_eq (by simpa using hdelta)).symm

lemma entryOf_of_mem {first : ℕ} {entry : BlobFileEntry}
    (h : entry ∈ b.mergeBlobFileMetas first) : ∃ n, first ≤ n ∧ EntryOf b n entry := by
  rw [mergeBlobFileMetas, mem_outerJoin inv.baseAscending.lowerBound inv.ascending.lowerBound] at h
  cases entry with
  | left base =>
    obtain ⟨hbase, hother⟩ := h
    obtain ⟨hmem, hle⟩ := (mem_lowerBound inv.baseAscending).1 hbase
    refine ⟨base.blobFileNumber, hle, entryOf_left inv hmem (find_eq_none.2 ?_)⟩
    exact fun m hm hnumber => hother m
      ((mem_lowerBound inv.ascending).2 ⟨hm, hnumber ▸ hle⟩) hnumber
  | right m =>
    obtain ⟨hmem, hle⟩ := (mem_lowerBound inv.ascending).1 h.1
    exact ⟨m.blobFileNumber, hle, entryOf_right inv hmem⟩
  | both base m =>
    obtain ⟨hbase, hm, hnumber⟩ := h
    obtain ⟨hm, hle⟩ := (mem_lowerBound inv.ascending).1 hm
    exact ⟨m.blobFileNumber, hle, entryOf_both inv
      ((mem_lowerBound inv.baseAscending).1 hbase).1 hm hnumber⟩

lemma exists_entryOf {first : ℕ} (h : b.HasBlobFile n) (hle : first ≤ n) :
    ∃ entry ∈ b.mergeBlobFileMetas first, EntryOf b n entry := by
  obtain ⟨m, hm⟩ := isSome_iff_exists.1 h
  have hmem : ∀ entry, entry ∈ b.mergeBlobFileMetas first ↔ _ := fun entry =>
    mem_outerJoin inv.baseAscending.lowerBound inv.ascending.lowerBound
  rcases getMutable_eq_some.1 hm with hfind | ⟨hnone, base, hbase, rfl⟩
  · obtain ⟨hmutable, rfl⟩ := (find_eq_some inv.ascending).1 hfind
    have hmutable' := (mem_lowerBound inv.ascending).2 ⟨hmutable, hle⟩
    cases hbase : b.base.getBlobFileMetaData m.blobFileNumber with
    | none =>
      refine ⟨.right m, (hmem _).2 ⟨hmutable', fun base hb hnumber => ?_⟩,
        entryOf_right inv hmutable⟩
      exact find_eq_none.1 hbase base ((mem_lowerBound inv.baseAscending).1 hb).1 hnumber
    | some base =>
      obtain ⟨hb, hnumber⟩ := (find_eq_some inv.baseAscending).1 hbase
      exact ⟨.both base m, (hmem _).2 ⟨(mem_lowerBound inv.baseAscending).2
        ⟨hb, hnumber ▸ hle⟩, hmutable', hnumber⟩, entryOf_both inv hb hmutable hnumber⟩
  · obtain ⟨hb, rfl⟩ := (find_eq_some inv.baseAscending).1 hbase
    refine ⟨.left base, (hmem _).2 ⟨(mem_lowerBound inv.baseAscending).2 ⟨hb, hle⟩,
      fun m hm hnumber => ?_⟩, entryOf_left inv hb hnone⟩
    exact find_eq_none.1 hnone m ((mem_lowerBound inv.ascending).1 hm).1 hnumber

lemma EntryOf.mem_linkedSsts {entry : BlobFileEntry} (h : EntryOf b n entry)
    (k : ℕ) : k ∈ (Rep.current entry).linkedSsts ↔ b.Linked k n := by
  obtain ⟨m, hm, hcurrent⟩ := h.current
  rw [hcurrent]
  exact inv.linked hm k

/-- A blob file with links is not older than the first one that is saved. -/
lemma getMinOldestBlobFileNumber_le {k : ℕ} (h : b.Linked k n) :
    b.getMinOldestBlobFileNumber ≤ n ∧ b.getMinOldestBlobFileNumber ≠ invalidBlobFileNumber := by
  obtain ⟨entry, hmem, hentry⟩ := exists_entryOf inv (inv.known h) (Nat.zero_le n)
  have hlinked : (current entry).linkedSsts ≠ ∅ :=
    ne_empty_of_mem ((hentry.mem_linkedSsts inv k).2 h)
  unfold getMinOldestBlobFileNumber
  cases hfind : (b.mergeBlobFileMetas invalidBlobFileNumber).find?
      fun entry => (current entry).linkedSsts ≠ ∅ with
  | none => exact absurd (find?_eq_none.1 hfind entry hmem) (by simpa using hlinked)
  | some first =>
    obtain ⟨n', -, hfirst⟩ := entryOf_of_mem inv (mem_of_find?_eq_some hfind)
    have hnumber : (current first).blobFileNumber = n' := by
      obtain ⟨m, hm, hcurrent⟩ := hfirst.current
      rw [hcurrent]
      exact number_of_getMutable hm
    have hle := key_le_of_find? (ascending_outerJoin
      inv.baseAscending.lowerBound inv.ascending.lowerBound) hfind hmem (by simpa using hlinked)
    rw [hfirst.key, hentry.key] at hle
    simp only [hnumber]
    refine ⟨hle, ?_⟩
    obtain ⟨k', hk'⟩ := nonempty_iff_ne_empty.2 (by simpa using find?_some hfind)
    obtain ⟨level, f, -, hname⟩ := (hfirst.mem_linkedSsts inv k').1 hk'
    exact hname.2

end

end Rep

/-! ## The links of a version -/

/-- The blob files of a version have the links of its table files, and no table file names a blob
file that is not there. -/
structure LinksConsistent (v : VersionStorageInfo K) : Prop where
  ascending : Ascending BlobFileMetaData.blobFileNumber v.blobFiles
  linked : ∀ blob ∈ v.blobFiles, ∀ k, k ∈ blob.linkedSsts ↔
    ∃ level, ∃ f ∈ v.levelFiles level, f.number = k ∧ Names f blob.blobFileNumber
  known : ∀ level, ∀ f ∈ v.levelFiles level, f.oldestBlobFileNumber ≠ invalidBlobFileNumber →
    ∃ blob ∈ v.blobFiles, blob.blobFileNumber = f.oldestBlobFileNumber

namespace Rep

variable {b : Rep K} {k : ℕ} {edits : List (VersionEdit K)}

/-- A file of the table is left out if it is missing from L0, whatever its level. -/
lemma FilesInv.savedTable_eq_none (inv : FilesInv b) {level : ℕ} {f : FileMetaData K}
    (h : b.table k = some (level, f)) :
    b.savedTable k = none ↔ b.trackFoundAndMissingFiles ∧ k ∈ b.l0MissingFiles := by
  have hleft : b.savedTable k = none ↔ b.LeftOut level k := by
    rw [savedTable, h]
    by_cases hleft : b.LeftOut level k <;> simp [hleft]
  rw [hleft]
  refine ⟨fun hleft => ⟨hleft.1, hleft.2.2⟩, fun hleft => ⟨hleft.1, ?_, hleft.2⟩⟩
  obtain ⟨g, hg, rfl⟩ := inv.missing hleft.1 k hleft.2
  rw [inv.table_eq_some.2 (.inr ⟨hg, rfl⟩)] at h
  cases h
  rfl

lemma table_of_savedTable {entry : ℕ × FileMetaData K} (h : b.savedTable k = some entry) :
    b.table k = some entry :=
  (filter_eq_some_iff.1 h).1

/-- A file that is saved and a file that is left out name the same blob file. -/
def SharesBlobFile (b : Rep K) : Prop :=
  ∃ blob k k', b.Linked k blob ∧ b.savedTable k ≠ none ∧ b.Linked k' blob ∧ b.savedTable k' = none

variable [LinearOrder K]

lemma saveVersion_blobFiles (b : Rep K) (requirement : EpochNumberRequirement) :
    (b.saveVersion requirement).blobFiles =
      if b.getMinOldestBlobFileNumber = invalidBlobFileNumber then []
      else ((b.mergeBlobFileMetas b.getMinOldestBlobFileNumber).map saved).filter
        b.addBlobFileIfNeeded := by
  simp only [saveVersion, saveTo, checkConsistency_fresh, saveBlobFilesTo, saveSSTFilesTo_fresh]
  split_ifs
  · rfl
  · exact nil_append _

lemma mem_saveVersion_blobFiles (inv : BlobInv b) {requirement : EpochNumberRequirement}
    {blob : BlobFileMetaData} (h : blob ∈ (b.saveVersion requirement).blobFiles) :
    b.addBlobFileIfNeeded blob ∧ ∀ k, k ∈ blob.linkedSsts ↔ b.Linked k blob.blobFileNumber := by
  rw [saveVersion_blobFiles] at h
  split_ifs at h
  · exact absurd h (by simp)
  · obtain ⟨hsaved, hadd⟩ := mem_filter.1 h
    obtain ⟨entry, hmem, rfl⟩ := mem_map.1 hsaved
    obtain ⟨n, -, hentry⟩ := entryOf_of_mem inv hmem
    refine ⟨hadd, fun k => ?_⟩
    rw [hentry.linkedSsts, hentry.number]
    exact hentry.mem_linkedSsts inv k

lemma ascending_saveVersion (inv : BlobInv b) (requirement : EpochNumberRequirement) :
    Ascending BlobFileMetaData.blobFileNumber (b.saveVersion requirement).blobFiles := by
  rw [saveVersion_blobFiles]
  split_ifs
  · exact Pairwise.nil
  · have hentries := ascending_outerJoin
      (inv.baseAscending.lowerBound (k := b.getMinOldestBlobFileNumber))
      (inv.ascending.lowerBound (k := b.getMinOldestBlobFileNumber))
    refine Pairwise.sublist filter_sublist (pairwise_map.2 ?_)
    refine hentries.imp_of_mem fun {x y} hx hy hlt => ?_
    obtain ⟨n, -, hx⟩ := entryOf_of_mem inv hx
    obtain ⟨m, -, hy⟩ := entryOf_of_mem inv hy
    rw [hx.number, hy.number]
    rwa [hx.key, hy.key] at hlt

omit [LinearOrder K] in
/-- A blob file of a file that is saved is not missing. -/
lemma notMem_missingBlobFiles (inv : Inv b)
    (valid : b.trackFoundAndMissingFiles → b.computeValidVersionAvailable)
    (htrack : b.trackFoundAndMissingFiles) {n : ℕ} (hlinked : b.Linked k n)
    (hsaved : k ∉ b.l0MissingFiles) : n ∉ b.missingBlobFiles := by
  intro hmissing
  obtain ⟨hhigh, hmutable⟩ := inv.blobs.missing n hmissing
  obtain ⟨hmin, -⟩ := getMinOldestBlobFileNumber_le inv.blobs hlinked
  have hvalid := valid htrack
  simp only [computeValidVersionAvailable, containsCompleteVersion, onlyMissingL0Suffix,
    Bool.or_eq_true, Bool.and_eq_true, decide_eq_true_eq] at hvalid
  rcases hvalid with ⟨-, hnone | hbelow⟩ | ⟨-, -, hempty | hremaining⟩
  · obtain ⟨level, f, -, hname⟩ := hlinked
    rw [hnone] at hhigh
    exact hname.2 (Nat.le_zero.1 hhigh)
  · omega
  · rw [hempty] at hmissing
    exact absurd hmissing (by simp)
  · -- every table file that names the blob file is missing
    simp only [remainingSstFilesNotMissingBlobFiles, decide_eq_true_eq] at hremaining
    rcases hremaining n hmissing with hbelow | honly
    · omega
    · obtain ⟨m, hm⟩ := isSome_iff_exists.1 hmutable
      have hsubset := (honly m hm).2
      rw [onlyLinkedToMissingL0Files, decide_eq_true_eq] at hsubset
      exact hsaved (hsubset ((inv.blobs.linked (getMutable_eq_some.2 (.inl hm)) k).2 hlinked))

/-- **No dangling links.** The blob file of every file that is saved is saved. -/
lemma exists_saved_blobFile (inv : Inv b)
    (valid : b.trackFoundAndMissingFiles → b.computeValidVersionAvailable)
    (requirement : EpochNumberRequirement) {n : ℕ} (hlinked : b.Linked k n)
    (hsaved : b.savedTable k ≠ none) :
    ∃ blob ∈ (b.saveVersion requirement).blobFiles, blob.blobFileNumber = n := by
  obtain ⟨hle, hne⟩ := getMinOldestBlobFileNumber_le inv.blobs hlinked
  obtain ⟨entry, hmem, hentry⟩ := exists_entryOf inv.blobs (inv.blobs.known hlinked) hle
  have hk : k ∈ (saved entry).linkedSsts := by
    rw [hentry.linkedSsts]
    exact (hentry.mem_linkedSsts inv.blobs k).2 hlinked
  refine ⟨saved entry, ?_, hentry.number⟩
  rw [saveVersion_blobFiles, if_neg hne]
  refine mem_filter.2 ⟨mem_map_of_mem hmem, ?_⟩
  have hnonempty : (saved entry).linkedSsts ≠ ∅ := ne_empty_of_mem hk
  cases htrack : b.trackFoundAndMissingFiles with
  | false => simp [addBlobFileIfNeeded, htrack, hnonempty]
  | true =>
    obtain ⟨level, f, hf, -⟩ := id hlinked
    have hpresent : k ∉ b.l0MissingFiles := fun hmissing =>
      hsaved ((inv.files.savedTable_eq_none hf).2 ⟨htrack, hmissing⟩)
    have hblob := notMem_missingBlobFiles inv valid htrack hlinked hpresent
    have honly : ¬ (saved entry).linkedSsts ⊆ b.l0MissingFiles := fun hsubset =>
      hpresent (hsubset hk)
    simp [addBlobFileIfNeeded, onlyLinkedToMissingL0Files, htrack, hnonempty, hentry.number, hblob,
      honly]

lemma FilesInv.linked_saveVersion (inv : FilesInv b) (requirement : EpochNumberRequirement)
    (k n : ℕ) :
    (∃ level, ∃ f ∈ (b.saveVersion requirement).levelFiles level, f.number = k ∧ Names f n) ↔
      b.Linked k n ∧ b.savedTable k ≠ none := by
  constructor
  · rintro ⟨level, f, hf, rfl, hname⟩
    rw [inv.mem_saveVersion] at hf
    exact ⟨⟨level, f, table_of_savedTable hf, hname⟩, by simp [hf]⟩
  · rintro ⟨⟨level, f, hf, hname⟩, hsaved⟩
    obtain ⟨entry, hentry⟩ := ne_none_iff_exists'.1 hsaved
    have heq := table_of_savedTable hentry
    rw [hf] at heq
    cases heq
    have hnumber : f.number = k := by
      rcases inv.table_eq_some.1 hf with ⟨-, -, hn⟩ | ⟨-, hn⟩ <;> exact hn
    exact ⟨level, f, (inv.mem_saveVersion requirement).2 (hnumber ▸ hentry), hnumber, hname⟩

/-- The links of what is saved are those of the table files, unless a blob file has links to a
file that is left out and to one that is not. -/
lemma Inv.linksConsistent_iff (inv : Inv b)
    (valid : b.trackFoundAndMissingFiles → b.computeValidVersionAvailable)
    (requirement : EpochNumberRequirement) :
    LinksConsistent (b.saveVersion requirement) ↔ ¬ b.SharesBlobFile := by
  constructor
  · rintro links ⟨n, k, k', hk, hsaved, hk', hleft⟩
    obtain ⟨blob, hblob, rfl⟩ := exists_saved_blobFile inv valid requirement hk hsaved
    have hmem := ((mem_saveVersion_blobFiles inv.blobs hblob).2 k').2 hk'
    rw [links.linked blob hblob, inv.files.linked_saveVersion] at hmem
    exact hmem.2 hleft
  · intro hshares
    refine ⟨ascending_saveVersion inv.blobs requirement, fun blob hblob k => ?_, ?_⟩
    · obtain ⟨hadd, hlinked⟩ := mem_saveVersion_blobFiles inv.blobs hblob
      rw [hlinked, inv.files.linked_saveVersion]
      refine ⟨fun hk => ⟨hk, fun hleft => ?_⟩, And.left⟩
      -- some other file with a link is saved, or the blob file would not be
      obtain ⟨level, f, hf, -⟩ := id hk
      obtain ⟨htrack, -⟩ := (inv.files.savedTable_eq_none hf).1 hleft
      have hnonempty : blob.linkedSsts ≠ ∅ := ne_empty_of_mem ((hlinked k).2 hk)
      have hother : ¬ blob.linkedSsts ⊆ b.l0MissingFiles := by
        intro hsubset
        simp [addBlobFileIfNeeded, onlyLinkedToMissingL0Files, htrack, hnonempty, hsubset] at hadd
      obtain ⟨k', hk', hpresent⟩ := not_subset.1 hother
      have hlinked' := (hlinked k').1 hk'
      refine hshares ⟨_, k', k, hlinked', fun hnone => ?_, hk, hleft⟩
      obtain ⟨level', g, hg, -⟩ := hlinked'
      exact hpresent ((inv.files.savedTable_eq_none hg).1 hnone).2
    · intro level f hf hvalid
      obtain ⟨hk, hsaved⟩ := (inv.files.linked_saveVersion requirement f.number
        f.oldestBlobFileNumber).1 ⟨level, f, hf, rfl, rfl, hvalid⟩
      exact exists_saved_blobFile inv valid requirement hk hsaved

/-! ### Builders on a version with consistent links -/

variable {handler : FileVerifier K} {track allowIncomplete : Bool} {base : VersionStorageInfo K}

omit [LinearOrder K] in
lemma linked_init (distinct : Distinct base) (k n : ℕ) :
    (init handler track allowIncomplete base).Linked k n ↔
      ∃ level, ∃ f ∈ base.levelFiles level, f.number = k ∧ Names f n := by
  have htable : (init handler track allowIncomplete base).table k = base.findFile k := rfl
  simp only [Linked, htable, distinct.findFile_eq_some, and_assoc]

omit [LinearOrder K] in
lemma getMutable_init (n : ℕ) : (init handler track allowIncomplete base).getMutable n =
    (base.getBlobFileMetaData n).map fun state => { state } := rfl

omit [LinearOrder K] in
lemma inv_init (distinct : Distinct base) (links : LinksConsistent base) :
    Inv (init handler track allowIncomplete base) := by
  refine ⟨filesInv_init distinct, links.ascending, Pairwise.nil, ?_, ?_, ?_, by simp [init]⟩
  · intro n m hm k
    rw [getMutable_init] at hm
    obtain ⟨blob, hblob, rfl⟩ := map_eq_some_iff.1 hm
    obtain ⟨hmem, rfl⟩ := (find_eq_some links.ascending).1 hblob
    rw [linked_init distinct]
    exact links.linked blob hmem k
  · intro n m blob hm hblob
    rw [getMutable_init, show base.getBlobFileMetaData n = some blob from hblob] at hm
    cases hm
    exact DeltaInv.start blob
  · intro k n hk
    obtain ⟨level, f, hf, -, rfl, hvalid⟩ := (linked_init distinct k n).1 hk
    obtain ⟨blob, hblob, hnumber⟩ := links.known level f hf hvalid
    rw [HasBlobFile, getMutable_init, isSome_map, show base.getBlobFileMetaData _ = some blob from
        (find_eq_some links.ascending).2 ⟨hblob, hnumber⟩]
    rfl

/-- The base or the edits have a blob file with the number. -/
def BlobFileProvided (base : VersionStorageInfo K) (edits : List (VersionEdit K)) (n : ℕ) : Prop :=
  (∃ blob ∈ base.blobFiles, blob.blobFileNumber = n) ∨
    ∃ edit ∈ edits, ∃ addition ∈ edit.blobFileAdditions, addition.blobFileNumber = n

/-- Every file that is added names a blob file of the base, or of the same or an earlier edit. -/
def BlobFilesProvided (base : VersionStorageInfo K) (edits : List (VersionEdit K)) : Prop :=
  ∀ earlier edit later, edits = earlier ++ edit :: later → ∀ added ∈ edit.newFiles,
    added.2.oldestBlobFileNumber ≠ invalidBlobFileNumber →
    BlobFileProvided base (earlier ++ [edit]) added.2.oldestBlobFileNumber

/-- The invariant along the edits: all blob files so far are there. -/
lemma forEach_apply_inv {earlier rest : List (VersionEdit K)} {b' : Rep K}
    (provided : BlobFilesProvided base edits) (hedits : edits = earlier ++ rest) (inv : Inv b)
    (hblobs : ∀ n, BlobFileProvided base earlier n → b.HasBlobFile n)
    (h : forEach apply rest b = (.ok, b')) : Inv b' := by
  induction rest generalizing earlier b with
  | nil =>
    cases h
    exact inv
  | cons edit rest ih =>
    obtain ⟨b₁, happly, h⟩ := forEach_cons h
    have hnew : ∀ added ∈ edit.newFiles, added.2.oldestBlobFileNumber ≠ invalidBlobFileNumber →
        b.HasBlobFile added.2.oldestBlobFileNumber ∨ ∃ addition ∈ edit.blobFileAdditions,
          addition.blobFileNumber = added.2.oldestBlobFileNumber := by
      intro added hadded hvalid
      rcases provided earlier edit rest hedits added hadded hvalid with hbase | ⟨e, he, hmem⟩
      · exact .inl (hblobs _ (.inl hbase))
      · rcases List.mem_append.1 he with he | he
        · exact .inl (hblobs _ (.inr ⟨e, he, hmem⟩))
        · obtain rfl := List.mem_singleton.1 he
          exact .inr hmem
    obtain ⟨inv₁, hkeeps, hadded⟩ := apply_inv inv hnew happly
    have hedits' : edits = (earlier ++ [edit]) ++ rest := by simpa using hedits
    refine ih hedits' inv₁ (fun n hn => ?_) h
    rcases hn with hbase | ⟨e, he, addition, haddition, rfl⟩
    · exact hkeeps n (hblobs n (.inl hbase))
    · rcases List.mem_append.1 he with he | he
      · exact hkeeps _ (hblobs _ (.inr ⟨e, he, addition, haddition, rfl⟩))
      · obtain rfl := List.mem_singleton.1 he
        exact hadded addition haddition

/-- A builder that looks for files notices every edit with changes. -/
lemma apply_versionUpdated {edit : VersionEdit K} {b' : Rep K} (inv : FilesInv b)
    (htrack : b.trackFoundAndMissingFiles) (h : apply edit b = (.ok, b')) :
    b'.versionUpdatedSinceLastCheck ∨ b' = b := by
  rw [apply] at h
  split at h
  swap
  · next hfailed => exact absurd (Prod.mk.inj h).1 hfailed
  split at h
  swap
  · next hfailed => exact absurd h (hfailed _)
  next b₁ hchanges =>
  split_ifs at h with hupdated
  · obtain ⟨-, rfl⟩ := Prod.mk.inj h
    exact .inl rfl
  · obtain ⟨-, rfl⟩ := Prod.mk.inj h
    obtain ⟨⟨-, hsetup⟩, -⟩ := applyChanges_table inv hchanges
    rw [hsetup.track] at hupdated
    have hnone : versionUpdated edit = false := by simpa [htrack] using hupdated
    simp only [versionUpdated, Bool.or_eq_false_iff, decide_eq_false_iff_not, not_not] at hnone
    obtain ⟨⟨⟨hadditions, hgarbages⟩, hdeleted⟩, hnew⟩ := hnone
    simp only [applyChanges, hadditions, hgarbages, hdeleted, hnew, forEach] at hchanges
    exact .inr (Prod.mk.inj hchanges).2.symm

/-- `ValidVersionAvailable` is up to date: it is computed anew, or there was no change. -/
lemma computeValidVersionAvailable_of_update (distinct : Distinct base) (htrack : track)
    (h : forEach apply edits (init handler track allowIncomplete base) = (.ok, b))
    (hvalid : b.updateValidVersionAvailable.validVersionAvailable) :
    b.computeValidVersionAvailable := by
  obtain ⟨-, -, hupdated⟩ := forEach_keeps (fun s => FilesInv s ∧
      SameSetup (init handler track allowIncomplete base) s ∧
      (s.versionUpdatedSinceLastCheck ∨ s = init handler track allowIncomplete base)) h
    (fun edit _ s s' hs hstep => by
      obtain ⟨hinv, hsetup, hupdated⟩ := hs
      obtain ⟨⟨hinv', hsetup'⟩, -⟩ := apply_table hinv hstep
      refine ⟨hinv', hsetup.trans hsetup', ?_⟩
      rcases apply_versionUpdated hinv (hsetup.track.trans htrack) hstep with hnew | rfl
      · exact .inl hnew
      · exact hupdated) ⟨filesInv_init distinct, SameSetup.refl _, .inr rfl⟩
  rcases hupdated with hupdated | rfl
  · rwa [updateValidVersionAvailable, if_pos hupdated] at hvalid
  · simp [computeValidVersionAvailable, containsCompleteVersion, init]

variable {requirement : EpochNumberRequirement}

/-- **Blob links.** On a base with consistent links, with edits that bring the blob files their
table files name, a version is saved with consistent links if and only if no blob file is shared
by a table file that is saved and one that is left out because it is missing. -/
theorem linksConsistent_saveVersion_iff (distinct : Distinct base) (links : LinksConsistent base)
    {edits : List (VersionEdit K)} (provided : BlobFilesProvided base edits) {b : Rep K}
    (applied : forEach apply edits (init handler track allowIncomplete base) = (.ok, b))
    (valid : track → b.updateValidVersionAvailable.validVersionAvailable) :
    LinksConsistent (b.saveVersion requirement) ↔ ¬ b.SharesBlobFile := by
  have hblobs : ∀ n, BlobFileProvided base [] n →
      (init handler track allowIncomplete base).HasBlobFile n := by
    rintro n (⟨blob, hblob, rfl⟩ | ⟨edit, hedit, -⟩)
    · rw [HasBlobFile, getMutable_init, isSome_map,
        show base.getBlobFileMetaData _ = some blob from
          (find_eq_some links.ascending).2 ⟨hblob, rfl⟩]
      rfl
    · exact absurd hedit (by simp)
  have inv : Inv b := forEach_apply_inv provided (nil_append edits).symm
    (inv_init distinct links) hblobs applied
  refine inv.linksConsistent_iff (fun htrack => ?_) requirement
  rw [(forEach_apply_setup distinct applied).2.track] at htrack
  exact computeValidVersionAvailable_of_update distinct htrack applied (valid htrack)

omit [LinearOrder K] in
/-- Nothing is left out by a builder that does not look for files. -/
lemma not_sharesBlobFile (h : b.trackFoundAndMissingFiles = false) : ¬ b.SharesBlobFile := by
  rintro ⟨n, k, k', -, -, ⟨level, f, hf, -⟩, hleft⟩
  simp [savedTable, hf, LeftOut, h] at hleft

end Rep

lemma linksConsistent_fresh (numLevels : ℕ) (requirement : EpochNumberRequirement)
    (force : Bool) : LinksConsistent (.fresh numLevels requirement force : VersionStorageInfo K) :=
  ⟨Pairwise.nil, by simp [VersionStorageInfo.fresh], by simp [levelFiles_fresh]⟩

/-- Two files in L0 with one blob file. -/
def sharedBlobFile : VersionEdit ℕ where
  blobFileAdditions := [⟨10, 2, 100⟩]
  newFiles := [(0, fileOf 1 1 5 10), (0, fileOf 2 2 6 10)]

lemma blobFilesProvided_shared (base : VersionStorageInfo ℕ) :
    BlobFilesProvided base [sharedBlobFile] := by
  intro earlier edit later hedits added hadded _
  have hsingle : earlier = [] ∧ sharedBlobFile = edit ∧ later = [] := by
    cases earlier with
    | nil => simpa using hedits
    | cons e earlier => simp at hedits
  obtain ⟨rfl, rfl, -⟩ := hsingle
  have hnumber : added.2.oldestBlobFileNumber = 10 := by
    simp only [sharedBlobFile, List.mem_cons, List.not_mem_nil, or_false] at hadded
    rcases hadded with rfl | rfl <;> rfl
  exact .inr ⟨sharedBlobFile, by simp, ⟨10, 2, 100⟩, by simp [sharedBlobFile], hnumber.symm⟩

/-- With both files there, the links are those of the files. -/
theorem linksConsistent_shared :
    LinksConsistent ((forEach apply [sharedBlobFile] (init nothingMissing false false
      (.fresh 2 .mustPresent true))).2.saveVersion .mustPresent) :=
  (linksConsistent_saveVersion_iff (isVersion_fresh 2 .mustPresent true).distinct
    (linksConsistent_fresh 2 .mustPresent true) (blobFilesProvided_shared _)
    (Prod.ext (by decide +kernel) rfl) (by simp)).2 (not_sharesBlobFile (by decide +kernel))

/-- The second file is not found. -/
def secondMissing : FileVerifier ℕ :=
  ⟨fun _ f => if f.number = 2 then .notFound else .ok, fun _ => .ok⟩

/-- The second file is missing, and may be; the blob file is saved with a link to it. -/
theorem not_linksConsistent_shared :
    let base : VersionStorageInfo ℕ := .fresh 2 .mustPresent false
    let applied := forEach apply [sharedBlobFile] (init secondMissing true true base)
    Distinct base ∧ LinksConsistent base ∧ BlobFilesProvided base [sharedBlobFile] ∧
    applied.1 = .ok ∧ applied.2.updateValidVersionAvailable.validVersionAvailable = true ∧
    (applied.2.saveTo (.fresh 2 .mustPresent false)).1 = .ok ∧
    ¬ LinksConsistent (applied.2.saveVersion .mustPresent) := by
  refine ⟨(isVersion_fresh 2 .mustPresent false).distinct, linksConsistent_fresh 2 .mustPresent
    false, blobFilesProvided_shared _, by decide +kernel, by decide +kernel, by decide +kernel,
    fun links => ?_⟩
  have hfiles : ((forEach apply [sharedBlobFile] (init secondMissing true true
      (.fresh 2 .mustPresent false))).2.saveVersion .mustPresent).files =
      [[fileOf 1 1 5 10], []] := by decide +kernel
  have hblobFile : ∃ blob ∈ ((forEach apply [sharedBlobFile] (init secondMissing true
      true (.fresh 2 .mustPresent false))).2.saveVersion .mustPresent).blobFiles,
      2 ∈ blob.linkedSsts := by decide +kernel
  obtain ⟨blob, hblob, hsecond⟩ := hblobFile
  obtain ⟨level, f, hf, hnumber, -⟩ := (links.linked blob hblob 2).1 hsecond
  rw [VersionStorageInfo.levelFiles, hfiles] at hf
  have hfirst : f = fileOf 1 1 5 10 := by
    rcases level with - | - | level
    · simpa using hf
    · simp at hf
    · simp at hf
  rw [hfirst] at hnumber
  exact absurd hnumber (by decide)

end BucketLSM.Manifest
