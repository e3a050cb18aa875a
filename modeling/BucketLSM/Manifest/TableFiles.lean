import BucketLSM.Manifest.BuilderSteps

/-!
# Building versions as a fold over edits

What a builder saves is described by a table that gives the level and the file for every file
number. An edit deletes and adds entries of the table, whatever the builder has collected so far;
saving after every edit or once at the end makes no difference, as long as the files of L0 are
ordered in the same way.
-/

namespace BucketLSM.Manifest

open List Manifest.VersionStorageInfo Option Function

variable {K : Type}

/-! ## The orders of a level -/

/-- A comparator that puts any two files with different numbers in order. -/
structure IsFileOrder (cmp : FileMetaData K → FileMetaData K → Bool) : Prop where
  asymm : ∀ f g, cmp f g → cmp g f = false
  negTrans : ∀ f g h, cmp g f = false → cmp h g = false → cmp h f = false
  connected : ∀ f g, f.number ≠ g.number → cmp g f = false → cmp f g

/-- Files by sequence numbers, newest first. -/
lemma isFileOrder_bySeqNo : IsFileOrder (newestFirstBySeqNo (K := K)) := by
  constructor
  · intro f g
    simp only [newestFirstBySeqNo]
    split_ifs <;> simp <;> omega
  · intro f g h
    simp only [newestFirstBySeqNo]
    split_ifs <;> simp <;> omega
  · intro f g
    simp only [newestFirstBySeqNo]
    split_ifs <;> simp <;> omega

/-- Files by epoch numbers, newest first, then by sequence numbers. -/
lemma isFileOrder_byEpochNumber : IsFileOrder (newestFirstByEpochNumber (K := K)) := by
  have hseq := isFileOrder_bySeqNo (K := K)
  constructor
  · intro f g
    simp only [newestFirstByEpochNumber]
    split_ifs
    · simp
      omega
    · omega
    · omega
    · exact hseq.asymm f g
  · intro f g h
    simp only [newestFirstByEpochNumber]
    split_ifs <;> first | exact hseq.negTrans f g h | (simp; omega)
  · intro f g hne
    simp only [newestFirstByEpochNumber]
    split_ifs <;> first | exact hseq.connected f g hne | (simp; omega)

/-- Files by smallest keys. -/
lemma isFileOrder_bySmallestKey [LinearOrder K] : IsFileOrder (bySmallestKey (K := K)) := by
  constructor
  · intro f g
    simp only [bySmallestKey]
    grind
  · intro f g h
    simp only [bySmallestKey]
    grind
  · intro f g
    simp only [bySmallestKey]
    grind

variable {cmp : FileMetaData K → FileMetaData K → Bool} {v : VersionStorageInfo K}

/-- Of two files one may stand first. -/
lemma IsFileOrder.total (h : IsFileOrder cmp) (f g : FileMetaData K) :
    cmp g f = false ∨ cmp f g = false := by
  cases hfg : cmp f g with
  | false => exact .inr rfl
  | true => exact .inl (h.asymm f g hfg)

/-- Two lists in a strict order that have the same files are equal. -/
lemma IsFileOrder.eq_of_mem_iff (h : IsFileOrder cmp) {files files' : List (FileMetaData K)}
    (sorted : files.Pairwise fun f g => cmp f g) (sorted' : files'.Pairwise fun f g => cmp f g)
    (same : ∀ f, f ∈ files ↔ f ∈ files') : files = files' := by
  have : Std.Antisymm fun f g : FileMetaData K => cmp f g = true :=
    ⟨fun f g hfg hgf => by simp [h.asymm f g hfg] at hgf⟩
  have : Std.Irrefl fun f g : FileMetaData K => cmp f g = true :=
    ⟨fun f hf => by simpa [hf] using h.asymm f f hf⟩
  exact sorted.eq_of_mem_iff sorted' same

/-! ## What is saved in a level -/

namespace Rep

/-- The merge of the builder is the merge of sorted lists; of equal files that of the base comes
first. -/
lemma mergeFiles_eq_merge (cmp : FileMetaData K → FileMetaData K → Bool)
    (added base : List (Origin × FileMetaData K)) :
    mergeFiles cmp added base = List.merge base added fun x y => !cmp y.2 x.2 := by
  fun_induction mergeFiles cmp added base with
  | case1 base => simp
  | case2 a added => simp
  | case3 a added f base hcmp ih => rw [cons_merge_cons, ih, hcmp]; rfl
  | case4 a added f base hcmp ih =>
    rw [cons_merge_cons, ih, Bool.eq_false_iff.2 hcmp]
    rfl

variable {added base : List (FileMetaData K)} {cmp : FileMetaData K → FileMetaData K → Bool}
  {f : FileMetaData K}

/-- The merged list has the files of both sides, each with its origin. -/
lemma mem_mergeUnorderedAddedFilesWithBase {o : Origin} :
    (o, f) ∈ mergeUnorderedAddedFilesWithBase cmp base added ↔
      o = .base ∧ f ∈ base ∨ o = .added ∧ f ∈ added := by
  rw [mergeUnorderedAddedFilesWithBase, mergeFiles_eq_merge, List.mem_merge]
  simp only [List.mem_map, Prod.mk.injEq, sortFiles, List.mem_insertionSort]
  grind

/-- The merge keeps the order, also for files that occur twice. -/
lemma sorted_mergeUnorderedAddedFilesWithBase (order : IsFileOrder cmp)
    (sorted : base.Pairwise fun f g => cmp f g) :
    (mergeUnorderedAddedFilesWithBase cmp base added).Pairwise fun x y => cmp y.2 x.2 = false := by
  have htotal : Std.Total fun f g : FileMetaData K => cmp g f = false := ⟨order.total⟩
  have htrans : IsTrans (FileMetaData K) fun f g => cmp g f = false := ⟨order.negTrans⟩
  have hadded : (sortFiles cmp added).Pairwise fun f g => cmp g f = false :=
    pairwise_insertionSort _ added
  have hbase := sorted.imp fun {f g} hfg => order.asymm f g hfg
  rw [mergeUnorderedAddedFilesWithBase, mergeFiles_eq_merge]
  have hmerged := @List.pairwise_merge _ (fun x y : Origin × FileMetaData K => !cmp y.2 x.2)
    (fun x y z => by simpa using order.negTrans x.2 y.2 z.2)
    (fun x y => by simpa using order.total x.2 y.2)
    (base.map (Prod.mk .base)) ((sortFiles cmp added).map (Prod.mk .added))
    (by simpa [pairwise_map] using hbase) (by simpa [pairwise_map] using hadded)
  simpa using hmerged

/-- The file is left out of the versions that are saved. -/
def LeftOut (b : Rep K) (level n : ℕ) : Prop :=
  b.trackFoundAndMissingFiles ∧ level = 0 ∧ n ∈ b.l0MissingFiles

instance (b : Rep K) (level n : ℕ) : Decidable (b.LeftOut level n) :=
  inferInstanceAs (Decidable (_ ∧ _ ∧ _))

/-- When a file of the merged list is saved. -/
lemma maybeAddFile_iff {b : Rep K} {level : ℕ} {o : Origin} : b.maybeAddFile level (o, f) ↔
      ¬ b.LeftOut level f.number ∧ f.number ∉ (b.levels level).deletedFiles ∧
      (o = .added ∨ (b.levels level).findAdded f.number = none) := by
  cases o <;> cases htrack : b.trackFoundAndMissingFiles <;>
    simp [maybeAddFile, LeftOut, htrack] <;> tauto

/-- A file that is saved is in the base and was neither deleted nor replaced, or it was added. -/
lemma mem_saveLevel {b : Rep K} {level : ℕ} : f ∈ b.saveLevel level cmp ↔
      ¬ b.LeftOut level f.number ∧ f.number ∉ (b.levels level).deletedFiles ∧
      (f ∈ b.base.levelFiles level ∧ (b.levels level).findAdded f.number = none ∨
        f ∈ (b.levels level).addedFiles) := by
  have hmem : f ∈ b.saveLevel level cmp ↔ ∃ o, (o, f) ∈ mergeUnorderedAddedFilesWithBase cmp
      (b.base.levelFiles level) (b.levels level).addedFiles ∧ b.maybeAddFile level (o, f) := by
    simp only [saveLevel, List.mem_map, List.mem_filter]
    constructor
    · rintro ⟨⟨o, g⟩, hg, rfl⟩
      exact ⟨o, hg⟩
    · rintro ⟨o, hf⟩
      exact ⟨(o, f), hf, rfl⟩
  rw [hmem]
  simp only [mem_mergeUnorderedAddedFilesWithBase, maybeAddFile_iff]
  constructor
  · rintro ⟨o, ⟨rfl, hf⟩ | ⟨rfl, hf⟩, hkept, hdeleted, hadd⟩
    · exact ⟨hkept, hdeleted, .inl ⟨hf, hadd.resolve_left (by simp)⟩⟩
    · exact ⟨hkept, hdeleted, .inr hf⟩
  · rintro ⟨hkept, hdeleted, ⟨hf, hnone⟩ | hf⟩
    · exact ⟨.base, .inl ⟨rfl, hf⟩, hkept, hdeleted, .inr hnone⟩
    · exact ⟨.added, .inr ⟨rfl, hf⟩, hkept, hdeleted, .inl rfl⟩

end Rep

/-! ## Tables of files -/

/-- The level and the file of every file number that is in use. -/
abbrev FileTable (K : Type) := ℕ → Option (ℕ × FileMetaData K)

namespace FileTable

/-- A file is taken off the table. -/
def delete (numLevels : ℕ) (t : FileTable K) (deleted : ℕ × ℕ) : FileTable K :=
  if deleted.1 < numLevels then Function.update t deleted.2 none else t

/-- A file is entered, unless it is left out. -/
def add (numLevels : ℕ) (leftOut : ℕ × FileMetaData K → Prop) [DecidablePred leftOut]
    (t : FileTable K) (added : ℕ × FileMetaData K) : FileTable K :=
  if added.1 < numLevels then
    Function.update t added.2.number (if leftOut added then none else some added)
  else t

/-- The table after an edit. -/
def edit (numLevels : ℕ) (leftOut : ℕ × FileMetaData K → Prop) [DecidablePred leftOut]
    (t : FileTable K) (e : VersionEdit K) : FileTable K :=
  e.newFiles.foldl (add numLevels leftOut) (e.deletedFiles.foldl (delete numLevels) t)

/-- Adding depends on what is left out only through the files. -/
lemma add_congr {leftOut leftOut' : ℕ × FileMetaData K → Prop} [DecidablePred leftOut]
    [DecidablePred leftOut'] (h : ∀ added, leftOut added ↔ leftOut' added) (numLevels : ℕ) :
    add numLevels leftOut = add numLevels leftOut' := by
  funext t added
  simp only [add, h]

end FileTable

/-- Every file number occurs at most once in a version. -/
structure Distinct (v : VersionStorageInfo K) : Prop where
  level : ∀ level, ((v.levelFiles level).map FileMetaData.number).Nodup
  levels : ∀ {level level' f g}, f ∈ v.levelFiles level → g ∈ v.levelFiles level' →
    f.number = g.number → level = level'

/-- A level with files exists. -/
lemma VersionStorageInfo.lt_of_mem_levelFiles {level : ℕ} {f : FileMetaData K}
    (h : f ∈ v.levelFiles level) : level < v.numLevels := by
  by_contra hge
  rw [levelFiles, getD_eq_default _ _ (not_lt.1 hge)] at h
  simp at h

/-- Where numbers are distinct a file is found by its number. -/
lemma Distinct.findFile_eq_some (h : Distinct v) {n level : ℕ} {f : FileMetaData K} :
    v.findFile n = some (level, f) ↔ f ∈ v.levelFiles level ∧ f.number = n := by
  constructor
  · intro hfind
    obtain ⟨level', -, hfound⟩ := exists_of_findSome?_eq_some hfind
    obtain ⟨g, hg, heq⟩ := map_eq_some_iff.1 hfound
    cases heq
    exact ⟨mem_of_find?_eq_some hg, by simpa using find?_some hg⟩
  · rintro ⟨hf, rfl⟩
    have hne : v.findFile f.number ≠ none := by
      rw [findFile, Ne, findSome?_eq_none_iff]
      push Not
      refine ⟨level, mem_range.2 (lt_of_mem_levelFiles hf), ?_⟩
      simp only [ne_eq, map_eq_none_iff, find?_eq_none]
      push Not
      exact ⟨f, hf, by simp⟩
    obtain ⟨⟨level', g⟩, hfind⟩ := ne_none_iff_exists'.1 hne
    obtain ⟨level'', -, hfound⟩ := exists_of_findSome?_eq_some hfind
    obtain ⟨x, hx, heq⟩ := map_eq_some_iff.1 hfound
    cases heq
    have hg := mem_of_find?_eq_some hx
    have hnumber : g.number = f.number := by simpa using find?_some hx
    obtain rfl := h.levels hg hf hnumber
    obtain rfl := inj_on_of_nodup_map (h.level _) hg hf hnumber
    exact hfind

namespace Rep

/-- Where a builder has a file, once all edits are applied. -/
def table (b : Rep K) : FileTable K := fun n =>
  match b.tableFileLevels n with
  | none => b.base.findFile n
  | some none => none
  | some (some level) => ((b.levels level).findAdded n).map fun f => (level, f)

/-- The builder looks for the file and leaves it out. -/
def LeavesOut (b : Rep K) (added : ℕ × FileMetaData K) : Prop :=
  b.trackFoundAndMissingFiles ∧ added.1 = 0 ∧ isMissing (b.handler.verifyFile added.1 added.2)

instance (b : Rep K) : DecidablePred b.LeavesOut :=
  fun _ => inferInstanceAs (Decidable (_ ∧ _ ∧ _))

/-- Where a builder has a file that it saves. -/
def savedTable (b : Rep K) : FileTable K := fun n =>
  (b.table n).filter fun entry => ¬ b.LeftOut entry.1 n

/-- How the files that are added and deleted go together with their current levels. -/
structure FilesInv (b : Rep K) : Prop where
  distinct : Distinct b.base
  deleted : ∀ {level n}, n ∈ (b.levels level).deletedFiles →
    level < b.numLevels ∧ ∃ l, b.tableFileLevels n = some l ∧ l ≠ some level
  moved : ∀ {level n l f}, b.tableFileLevels n = some l → l ≠ some level →
    b.base.findFile n = some (level, f) → n ∈ (b.levels level).deletedFiles
  added : ∀ {level f}, f ∈ (b.levels level).addedFiles →
    level < b.numLevels ∧ b.tableFileLevels f.number = some (some level)
  present : ∀ {level n}, b.tableFileLevels n = some (some level) → level < b.numLevels →
    ∃ f ∈ (b.levels level).addedFiles, f.number = n
  once : ∀ level, ((b.levels level).addedFiles.map FileMetaData.number).Nodup
  missing : b.trackFoundAndMissingFiles → ∀ n ∈ b.l0MissingFiles,
    ∃ f ∈ (b.levels 0).addedFiles, f.number = n

variable {f : FileMetaData K} {n level : ℕ} {b b' : Rep K} {l : Option ℕ} {edit : VersionEdit K}

/-- An added file is found by its number. -/
lemma findAdded_eq_some {l : LevelState K} (once : (l.addedFiles.map FileMetaData.number).Nodup) :
    l.findAdded n = some f ↔ f ∈ l.addedFiles ∧ f.number = n :=
  Keyed.find?_eq_some once

/-- A number is not found if no added file has it. -/
lemma findAdded_eq_none {l : LevelState K} :
    l.findAdded n = none ↔ ∀ f ∈ l.addedFiles, f.number ≠ n := by
  simp [LevelState.findAdded]

/-- A file of the table is an unchanged file of the base or an added file. -/
lemma FilesInv.table_eq_some (h : FilesInv b) : b.table n = some (level, f) ↔
      b.tableFileLevels n = none ∧ f ∈ b.base.levelFiles level ∧ f.number = n ∨
      f ∈ (b.levels level).addedFiles ∧ f.number = n := by
  unfold table
  constructor
  · intro htable
    split at htable
    · next hlevel => exact .inl ⟨hlevel, h.distinct.findFile_eq_some.1 htable⟩
    · cases htable
    · next l hlevel =>
      obtain ⟨g, hg, heq⟩ := map_eq_some_iff.1 htable
      cases heq
      exact .inr ((findAdded_eq_some (h.once level)).1 hg)
  · rintro (⟨hlevel, hf, hn⟩ | ⟨hf, rfl⟩)
    · rw [hlevel]
      exact h.distinct.findFile_eq_some.2 ⟨hf, hn⟩
    · rw [(h.added hf).2]
      exact map_eq_some_iff.2 ⟨f, (findAdded_eq_some (h.once level)).2 ⟨hf, rfl⟩, rfl⟩

/-- **What is saved.** The files saved in a level are those the table has there. -/
lemma FilesInv.mem_saveLevel_iff (h : FilesInv b) {cmp : FileMetaData K → FileMetaData K → Bool} :
    f ∈ b.saveLevel level cmp ↔ b.savedTable f.number = some (level, f) := by
  rw [mem_saveLevel, savedTable, filter_eq_some_iff, h.table_eq_some, decide_eq_true_eq]
  constructor
  · rintro ⟨hkept, hdeleted, ⟨hf, hnone⟩ | hf⟩
    · refine ⟨.inl ⟨?_, hf, rfl⟩, hkept⟩
      -- a file of the base that the edits name was deleted or added again
      by_contra htouched
      obtain ⟨l, hl⟩ := ne_none_iff_exists'.1 htouched
      by_cases hsame : l = some level
      · subst hsame
        obtain ⟨g, hg, hnumber⟩ := h.present hl (lt_of_mem_levelFiles hf)
        exact findAdded_eq_none.1 hnone g hg hnumber
      · exact hdeleted (h.moved hl hsame (h.distinct.findFile_eq_some.2 ⟨hf, rfl⟩))
    · exact ⟨.inr ⟨hf, rfl⟩, hkept⟩
  · rintro ⟨⟨hlevel, hf, -⟩ | ⟨hf, -⟩, hkept⟩
    · refine ⟨hkept, fun hdel => ?_, .inl ⟨hf, findAdded_eq_none.2 fun g hg hnumber => ?_⟩⟩
      · obtain ⟨-, l, hl, -⟩ := h.deleted hdel
        rw [hlevel] at hl
        cases hl
      · have hl := (h.added hg).2
        rw [hnumber, hlevel] at hl
        cases hl
    · refine ⟨hkept, fun hdel => ?_, .inr hf⟩
      obtain ⟨-, l, hl, hne⟩ := h.deleted hdel
      rw [(h.added hf).2] at hl
      exact hne (some.inj hl).symm

/-! ### The steps on the table -/

/-- The builder knows the level of a file that it has added. -/
lemma FilesInv.current_of_mem (h : FilesInv b) (hf : f ∈ (b.levels level).addedFiles) :
    b.getCurrentLevelForTableFile f.number = some level := by
  rw [getCurrentLevelForTableFile, (h.added hf).2]

/-- An unchanged file is where the base has it. -/
lemma current_of_findFile (hlevel : b.tableFileLevels n = none)
    (hf : b.base.findFile n = some (level, f)) : b.getCurrentLevelForTableFile n = some level := by
  rw [getCurrentLevelForTableFile, hlevel, hf]
  rfl

/-- A changed file is where the builder has put it. -/
lemma current_of_tableFileLevels (h : b.tableFileLevels n = some l) :
    b.getCurrentLevelForTableFile n = l := by
  rw [getCurrentLevelForTableFile, h]

/-- A file of the base that is not on its level any more is deleted there. -/
lemma FilesInv.mem_deletedFiles (h : FilesInv b) (hf : b.base.findFile n = some (level, f))
    (hcurrent : b.getCurrentLevelForTableFile n ≠ some level) :
    n ∈ (b.levels level).deletedFiles := by
  cases hl : b.tableFileLevels n with
  | none => exact absurd (current_of_findFile hl hf) hcurrent
  | some l => exact h.moved hl (current_of_tableFileLevels hl ▸ hcurrent) hf

/-- The invariant reads nothing but the files. -/
lemma SameFiles.filesInv (h : SameFiles b b') (inv : FilesInv b) : FilesInv b' := by
  obtain ⟨⟨hbase, -, htrack, -⟩, hlevels, htable, hl0, -⟩ := h
  obtain ⟨distinct, deleted, moved, added, present, once, missing⟩ := inv
  unfold numLevels at deleted added present
  rw [← hbase] at distinct deleted moved added present
  rw [← hlevels] at deleted moved added present once missing
  rw [← htable] at deleted moved added present
  rw [← htrack, ← hl0] at missing
  exact ⟨distinct, deleted, moved, added, present, once, missing⟩

/-- One entry of the saved table depends on one entry of the table. -/
lemma savedTable_congr (htable : b'.table n = b.table n)
    (hleftOut : ∀ level, b'.LeftOut level n ↔ b.LeftOut level n) :
    b'.savedTable n = b.savedTable n := by
  simp only [savedTable, htable, hleftOut]

/-- The same files make the same table. -/
lemma SameFiles.table (h : SameFiles b b') : b'.table = b.table := by
  unfold Rep.table
  rw [h.base, h.levels, h.tableFileLevels]

/-- And the same table is saved. -/
lemma SameFiles.savedTable (h : SameFiles b b') : b'.savedTable = b.savedTable := by
  funext n
  apply savedTable_congr
  · rw [h.table]
  · intro level
    unfold LeftOut
    rw [h.l0Missing, h.track]

/-- On an invalid level, or on none. -/
def OffLevels (b : Rep K) (n : ℕ) : Prop :=
  ∀ level, b.getCurrentLevelForTableFile n = some level → b.numLevels ≤ level

/-- A file off all levels is not among the added files. -/
lemma OffLevels.notMem (h : b.OffLevels n) (inv : FilesInv b)
    (hf : f ∈ (b.levels level).addedFiles) : f.number ≠ n := by
  rintro rfl
  exact absurd (inv.added hf).1 (not_lt.2 (h level (inv.current_of_mem hf)))

/-- A file off all levels is not in the table. -/
lemma OffLevels.table (h : b.OffLevels n) (inv : FilesInv b) : b.table n = none := by
  cases htable : b.table n with
  | none => rfl
  | some entry =>
    obtain ⟨level, f⟩ := entry
    rcases inv.table_eq_some.1 htable with ⟨hlevel, hf, hn⟩ | ⟨hf, hn⟩
    · have hfind := inv.distinct.findFile_eq_some.2 ⟨hf, hn⟩
      exact absurd (lt_of_mem_levelFiles hf)
        (not_lt.2 (h level (current_of_findFile hlevel hfind)))
    · exact absurd hn (h.notMem inv hf)

/-- What a change of one entry leaves alone. -/
lemma tableFileLevels_update {entry : Option (Option ℕ)} (hbase : b'.base = b.base)
    (h : b'.tableFileLevels = update b.tableFileLevels n entry) :
    b'.numLevels = b.numLevels ∧ (∀ {m}, m ≠ n → b'.tableFileLevels m = b.tableFileLevels m) ∧
      b'.tableFileLevels n = entry := by
  refine ⟨by rw [numLevels, hbase, numLevels], fun hm => ?_, ?_⟩
  · rw [h, update_of_ne hm]
  · rw [h, update_self]

section

variable (h : LevelChanged n l b b') (inv : FilesInv b) (before : b.OffLevels n)
  (after : ∀ level, l = some level → b.numLevels ≤ level)

include h inv before after

/-- A file that is on no level before and after a step is in no table. -/
lemma LevelChanged.filesInv : FilesInv b' := by
  obtain ⟨hnum, hother, hself⟩ := tableFileLevels_update h.base h.tableFileLevels
  refine ⟨h.base ▸ inv.distinct, ?_, ?_, ?_, ?_, ?_, ?_⟩
  · intro level m hm
    rw [h.levels] at hm
    obtain ⟨hlt, l', hl', hne⟩ := inv.deleted hm
    rw [hnum]
    refine ⟨hlt, ?_⟩
    by_cases heq : m = n
    · subst heq
      exact ⟨l, hself, fun hl => absurd hlt (not_lt.2 (after level hl))⟩
    · exact ⟨l', (hother heq).trans hl', hne⟩
  · intro level m l' f hl' hne hf
    rw [h.base] at hf
    rw [h.levels]
    by_cases heq : m = n
    · subst heq
      refine inv.mem_deletedFiles hf fun hcurrent => ?_
      exact absurd (lt_of_mem_levelFiles
        (inv.distinct.findFile_eq_some.1 hf).1) (not_lt.2 (before level hcurrent))
    · exact inv.moved ((hother heq).symm.trans hl') hne hf
  · intro level f hf
    rw [h.levels] at hf
    rw [hnum, hother (before.notMem inv hf)]
    exact inv.added hf
  · intro level m hm hlt
    rw [hnum] at hlt
    rw [h.levels]
    by_cases heq : m = n
    · subst heq
      rw [hself] at hm
      exact absurd hlt (not_lt.2 (after level (some.inj hm)))
    · exact inv.present ((hother heq).symm.trans hm) hlt
  · rw [h.levels]
    exact inv.once
  · rw [h.track, h.l0Missing, h.levels]
    exact inv.missing

/-- A change of level alone does not show in the table. -/
lemma LevelChanged.table : b'.table = b.table := by
  have inv' := h.filesInv inv before after
  funext m
  by_cases heq : m = n
  · subst heq
    have hoff : b'.OffLevels m := by
      intro level hlevel
      rw [getCurrentLevelForTableFile, h.tableFileLevels, update_self] at hlevel
      rw [numLevels, h.base]
      exact after level hlevel
    rw [before.table inv, hoff.table inv']
  · unfold Rep.table
    rw [h.tableFileLevels, update_of_ne heq, h.base, h.levels]

/-- Nor in the table that is saved. -/
lemma LevelChanged.savedTable : b'.savedTable = b.savedTable := by
  funext m
  apply savedTable_congr
  · rw [h.table inv before after]
  · intro level
    unfold LeftOut
    rw [h.l0Missing, h.track]

end

section Removed

variable {b b' : Rep K} {level n : ℕ} (h : FileRemoved level n b b') (inv : FilesInv b)
  (hlevel : level < b.numLevels) (hcurrent : b.getCurrentLevelForTableFile n = some level)

include h

/-- The deleted files after a removal. -/
lemma FileRemoved.mem_deletedFiles {level' m : ℕ} : m ∈ (b'.levels level').deletedFiles ↔
      m ∈ (b.levels level').deletedFiles ∨ m = n ∧ level' = level := by
  rw [h.levels]
  by_cases heq : level' = level
  · subst heq
    simp [or_comm]
  · simp [heq]

include inv hcurrent

/-- The added files after a removal. -/
lemma FileRemoved.mem_addedFiles {level' : ℕ} {f : FileMetaData K} :
    f ∈ (b'.levels level').addedFiles ↔ f ∈ (b.levels level').addedFiles ∧ f.number ≠ n := by
  rw [h.levels]
  by_cases heq : level' = level
  · subst heq
    simp
  · rw [update_of_ne heq]
    refine ⟨fun hf => ⟨hf, ?_⟩, And.left⟩
    rintro rfl
    rw [inv.current_of_mem hf] at hcurrent
    exact heq (some.inj hcurrent)

include hlevel

/-- A removal keeps the invariant. -/
lemma FileRemoved.filesInv : FilesInv b' := by
  obtain ⟨hnum, hother, hself⟩ := tableFileLevels_update h.base h.tableFileLevels
  refine ⟨h.base ▸ inv.distinct, ?_, ?_, ?_, ?_, ?_, ?_⟩
  · intro level' m hm
    rw [hnum]
    by_cases heq : m = n
    · subst heq
      refine ⟨?_, none, hself, by simp⟩
      rcases h.mem_deletedFiles.1 hm with hm | ⟨-, rfl⟩
      · exact (inv.deleted hm).1
      · exact hlevel
    · have hm' := (h.mem_deletedFiles.1 hm).resolve_right fun hc => heq hc.1
      rw [hother heq]
      exact inv.deleted hm'
  · intro level' m l f hl hne hf
    rw [h.base] at hf
    rw [h.mem_deletedFiles]
    by_cases heq : m = n
    · subst heq
      by_cases hsame : level' = level
      · exact .inr ⟨rfl, hsame⟩
      · refine .inl (inv.mem_deletedFiles hf fun hc => ?_)
        rw [hcurrent] at hc
        exact hsame (some.inj hc).symm
    · rw [hother heq] at hl
      exact .inl (inv.moved hl hne hf)
  · intro level' f hf
    obtain ⟨hf, hne⟩ := (h.mem_addedFiles inv hcurrent).1 hf
    rw [hnum, hother hne]
    exact inv.added hf
  · intro level' m hm hlt
    have hne : m ≠ n := by
      rintro rfl
      rw [hself] at hm
      cases hm
    rw [hother hne] at hm
    rw [hnum] at hlt
    obtain ⟨f, hf, rfl⟩ := inv.present hm hlt
    exact ⟨f, (h.mem_addedFiles inv hcurrent).2 ⟨hf, hne⟩, rfl⟩
  · intro level'
    rw [h.levels]
    by_cases heq : level' = level
    · subst heq
      rw [update_self]
      exact (inv.once level').sublist (filter_sublist.map _)
    · rw [update_of_ne heq]
      exact inv.once level'
  · intro htrack m hm
    rw [h.track] at htrack
    rw [h.l0Missing, if_pos htrack, Finset.mem_erase] at hm
    obtain ⟨f, hf, rfl⟩ := inv.missing htrack m hm.2
    exact ⟨f, (h.mem_addedFiles inv hcurrent).2 ⟨hf, hm.1⟩, rfl⟩

/-- A removal takes one entry from the table. -/
lemma FileRemoved.table : b'.table = update b.table n none := by
  have inv' := h.filesInv inv hlevel hcurrent
  funext m
  by_cases heq : m = n
  · subst heq
    rw [update_self, Rep.table, h.tableFileLevels, update_self]
  · rw [update_of_ne heq]
    ext ⟨level', f⟩
    simp only [inv.table_eq_some, inv'.table_eq_some, h.mem_addedFiles inv hcurrent]
    rw [h.tableFileLevels, update_of_ne heq, h.base]
    constructor
    · rintro (hf | ⟨⟨hf, -⟩, hm⟩)
      · exact .inl hf
      · exact .inr ⟨hf, hm⟩
    · rintro (hf | ⟨hf, rfl⟩)
      · exact .inl hf
      · exact .inr ⟨⟨hf, heq⟩, rfl⟩

/-- A removal is a deletion in the table that is saved. -/
lemma FileRemoved.savedTable : b'.savedTable = b.savedTable.delete b.numLevels (level, n) := by
  have htable := h.table inv hlevel hcurrent
  rw [FileTable.delete, if_pos hlevel]
  funext m
  by_cases heq : m = n
  · subst heq
    rw [update_self, Rep.savedTable, htable, update_self]
    rfl
  · rw [update_of_ne heq]
    apply savedTable_congr
    · rw [htable, update_of_ne heq]
    · intro level'
      unfold LeftOut
      rw [h.l0Missing, h.track]
      by_cases htrack : b.trackFoundAndMissingFiles
      · simp [htrack, heq]
      · simp [htrack]

end Removed

section Inserted

variable {b b' : Rep K} {level : ℕ} {f : FileMetaData K}

/-- A file that is nowhere is off all levels. -/
lemma offLevels_of_none {b : Rep K} {n : ℕ} (h : b.getCurrentLevelForTableFile n = none) :
    b.OffLevels n := by
  intro level hlevel
  rw [h] at hlevel
  cases hlevel

/-- So is a file in a level that does not exist. -/
lemma offLevels_of_some {b : Rep K} {n level : ℕ} (h : b.getCurrentLevelForTableFile n = some level)
    (hlevel : b.numLevels ≤ level) : b.OffLevels n := by
  intro level' hlevel'
  rw [h] at hlevel'
  cases hlevel'
  exact hlevel

variable (h : FileInserted level f b b') (inv : FilesInv b) (hlevel : level < b.numLevels)
  (hcurrent : b.getCurrentLevelForTableFile f.number = none)

include h

/-- The deleted files after an insertion: the number is not deleted any more. -/
lemma FileInserted.mem_deletedFiles {level' m : ℕ} : m ∈ (b'.levels level').deletedFiles ↔
      m ∈ (b.levels level').deletedFiles ∧ ¬ (m = f.number ∧ level' = level) := by
  rw [h.levels]
  by_cases heq : level' = level
  · subst heq
    simp [and_comm]
  · simp [heq]

include inv hcurrent

/-- The added files after an insertion. -/
lemma FileInserted.mem_addedFiles {level' : ℕ} {g : FileMetaData K} :
    g ∈ (b'.levels level').addedFiles ↔
      g ∈ (b.levels level').addedFiles ∨ g = f ∧ level' = level := by
  rw [h.levels]
  by_cases heq : level' = level
  · subst heq
    have hnone : (b.levels level').findAdded f.number = none :=
      findAdded_eq_none.2 fun g hg => (offLevels_of_none hcurrent).notMem inv hg
    simp [hnone, or_comm]
  · simp [heq]

include hlevel

/-- An insertion keeps the invariant. -/
lemma FileInserted.filesInv : FilesInv b' := by
  obtain ⟨hnum, hother, hself⟩ := tableFileLevels_update h.base h.tableFileLevels
  have hnotMem : ∀ {level' g}, g ∈ (b.levels level').addedFiles → g.number ≠ f.number :=
    fun hg => (offLevels_of_none hcurrent).notMem inv hg
  refine ⟨h.base ▸ inv.distinct, ?_, ?_, ?_, ?_, ?_, ?_⟩
  · intro level' m hm
    obtain ⟨hm, hne⟩ := h.mem_deletedFiles.1 hm
    obtain ⟨hlt, l, hl, hl'⟩ := inv.deleted hm
    rw [hnum]
    refine ⟨hlt, ?_⟩
    by_cases heq : m = f.number
    · subst heq
      exact ⟨some level, hself, fun hc => hne ⟨rfl, (some.inj hc).symm⟩⟩
    · exact ⟨l, (hother heq).trans hl, hl'⟩
  · intro level' m l g hl hne hg
    rw [h.base] at hg
    rw [h.mem_deletedFiles]
    by_cases heq : m = f.number
    · subst heq
      rw [hself] at hl
      refine ⟨inv.mem_deletedFiles hg (by simp [hcurrent]), fun hc => hne ?_⟩
      rw [hc.2, ← some.inj hl]
    · rw [hother heq] at hl
      exact ⟨inv.moved hl hne hg, fun hc => heq hc.1⟩
  · intro level' g hg
    rw [hnum]
    rcases (h.mem_addedFiles inv hcurrent).1 hg with hg | ⟨rfl, rfl⟩
    · rw [hother (hnotMem hg)]
      exact inv.added hg
    · exact ⟨hlevel, hself⟩
  · intro level' m hm hlt
    rw [hnum] at hlt
    by_cases heq : m = f.number
    · subst heq
      rw [hself] at hm
      cases hm
      exact ⟨f, (h.mem_addedFiles inv hcurrent).2 (.inr ⟨rfl, rfl⟩), rfl⟩
    · rw [hother heq] at hm
      obtain ⟨g, hg, rfl⟩ := inv.present hm hlt
      exact ⟨g, (h.mem_addedFiles inv hcurrent).2 (.inl hg), rfl⟩
  · intro level'
    rw [h.levels]
    by_cases heq : level' = level
    · subst heq
      have hnone : (b.levels level').findAdded f.number = none :=
        findAdded_eq_none.2 fun g hg => hnotMem hg
      rw [update_self, hnone]
      refine nodup_cons.2 ⟨fun hmem => ?_, inv.once level'⟩
      obtain ⟨g, hg, hnumber⟩ := mem_map.1 hmem
      exact hnotMem hg hnumber
    · rw [update_of_ne heq]
      exact inv.once level'
  · intro htrack m hm
    rw [h.track] at htrack
    rw [h.l0Missing] at hm
    split_ifs at hm with hmissing
    · rcases Finset.mem_insert.1 hm with rfl | hm
      · exact ⟨f, (h.mem_addedFiles inv hcurrent).2 (.inr ⟨rfl, hmissing.2.1.symm⟩), rfl⟩
      · obtain ⟨g, hg, rfl⟩ := inv.missing htrack m hm
        exact ⟨g, (h.mem_addedFiles inv hcurrent).2 (.inl hg), rfl⟩
    · obtain ⟨g, hg, rfl⟩ := inv.missing htrack m hm
      exact ⟨g, (h.mem_addedFiles inv hcurrent).2 (.inl hg), rfl⟩

/-- An insertion sets one entry of the table. -/
lemma FileInserted.table : b'.table = update b.table f.number (some (level, f)) := by
  have inv' := h.filesInv inv hlevel hcurrent
  funext m
  by_cases heq : m = f.number
  · subst heq
    rw [update_self, inv'.table_eq_some]
    exact .inr ⟨(h.mem_addedFiles inv hcurrent).2 (.inr ⟨rfl, rfl⟩), rfl⟩
  · rw [update_of_ne heq]
    ext ⟨level', g⟩
    simp only [inv.table_eq_some, inv'.table_eq_some, h.mem_addedFiles inv hcurrent]
    rw [h.tableFileLevels, update_of_ne heq, h.base]
    constructor
    · rintro (hg | ⟨hg | ⟨rfl, -⟩, hm⟩)
      · exact .inl hg
      · exact .inr ⟨hg, hm⟩
      · exact absurd hm.symm heq
    · rintro (hg | ⟨hg, hm⟩)
      · exact .inl hg
      · exact .inr ⟨.inl hg, hm⟩

/-- An insertion is an addition to the table that is saved. -/
lemma FileInserted.savedTable :
    b'.savedTable = b.savedTable.add b.numLevels b.LeavesOut (level, f) := by
  have htable := h.table inv hlevel hcurrent
  rw [FileTable.add, if_pos hlevel]
  funext m
  by_cases heq : m = f.number
  · subst heq
    have hleftOut : b'.LeftOut level f.number ↔ b.LeavesOut (level, f) := by
      unfold LeftOut LeavesOut
      rw [h.track, h.l0Missing]
      constructor
      · rintro ⟨htrack, rfl, hmem⟩
        split_ifs at hmem with hmissing
        · exact hmissing
        · obtain ⟨g, hg, hnumber⟩ := inv.missing htrack _ hmem
          exact absurd hnumber ((offLevels_of_none hcurrent).notMem inv hg)
      · rintro ⟨htrack, hl0, hmissing⟩
        rw [if_pos ⟨htrack, hl0, hmissing⟩]
        exact ⟨htrack, hl0, Finset.mem_insert_self _ _⟩
    rw [update_self, Rep.savedTable, htable, update_self]
    by_cases hout : b.LeavesOut (level, f)
    · simp [hleftOut, hout]
    · simp [hleftOut, hout]
  · rw [update_of_ne heq]
    apply savedTable_congr
    · rw [htable, update_of_ne heq]
    · intro level'
      unfold LeftOut
      rw [h.l0Missing, h.track]
      split_ifs <;> simp [heq]

end Inserted

/-! ### An edit on the table -/

/-- The number of levels is that of the base. -/
lemma SameSetup.numLevels (h : SameSetup b b') : b'.numLevels = b.numLevels := by
  rw [Rep.numLevels, h.base, Rep.numLevels]

/-- What is left out does not change along a run. -/
lemma SameSetup.leavesOut (h : SameSetup b b') (added : ℕ × FileMetaData K) :
    b'.LeavesOut added ↔ b.LeavesOut added := by
  rw [LeavesOut, h.track, h.handler, LeavesOut]

/-- `ApplyFileDeletion` on the table. -/
lemma applyFileDeletion_table {deleted : ℕ × ℕ} (inv : FilesInv b)
    (h : applyFileDeletion deleted b = (.ok, b')) : (FilesInv b' ∧ SameSetup b b') ∧
    b'.savedTable = b.savedTable.delete b.numLevels deleted := by
  obtain ⟨level, n⟩ := deleted
  obtain ⟨hcurrent, ⟨hlevel, hstep⟩ | ⟨hlevel, hstep⟩⟩ := applyFileDeletion_ok h
  · have hoff := offLevels_of_some hcurrent hlevel
    rw [FileTable.delete, if_neg (not_lt.2 hlevel)]
    exact ⟨⟨hstep.filesInv inv hoff (by simp), hstep.toSameSetup⟩,
      hstep.savedTable inv hoff (by simp)⟩
  · exact ⟨⟨hstep.filesInv inv hlevel hcurrent, hstep.toSameSetup⟩,
      hstep.savedTable inv hlevel hcurrent⟩

/-- `ApplyFileAddition` on the table. -/
lemma applyFileAddition_table {added : ℕ × FileMetaData K} (inv : FilesInv b)
    (h : applyFileAddition added b = (.ok, b')) : (FilesInv b' ∧ SameSetup b b') ∧
    b'.savedTable = b.savedTable.add b.numLevels b.LeavesOut added := by
  obtain ⟨level, f⟩ := added
  obtain ⟨hcurrent, ⟨hlevel, hstep⟩ | ⟨hlevel, hstep⟩⟩ := applyFileAddition_ok h
  · have hafter : ∀ level', some level = some level' → b.numLevels ≤ level' := by
      rintro level' ⟨⟩
      exact hlevel
    rw [FileTable.add, if_neg (not_lt.2 hlevel)]
    exact ⟨⟨hstep.filesInv inv (offLevels_of_none hcurrent) hafter, hstep.toSameSetup⟩,
      hstep.savedTable inv (offLevels_of_none hcurrent) hafter⟩
  · exact ⟨⟨hstep.filesInv inv hlevel hcurrent, hstep.toSameSetup⟩,
      hstep.savedTable inv hlevel hcurrent⟩

/-- A step that leaves the files alone leaves the table alone. -/
lemma SameFiles.table_step {b₀ : Rep K} (h : SameFiles b b')
    (inv : (FilesInv b ∧ SameSetup b₀ b) ∧ b.savedTable = b₀.savedTable) :
    (FilesInv b' ∧ SameSetup b₀ b') ∧ b'.savedTable = b₀.savedTable :=
  ⟨⟨h.filesInv inv.1.1, inv.1.2.trans h.toSameSetup⟩, h.savedTable.trans inv.2⟩

/-- All changes of an edit on the table: deletions first, then additions. -/
lemma applyChanges_table (inv : FilesInv b) (h : applyChanges edit b = (.ok, b')) :
    (FilesInv b' ∧ SameSetup b b') ∧
    b'.savedTable = b.savedTable.edit b.numLevels b.LeavesOut edit := by
  obtain ⟨b₁, b₂, b₃, h₁, h₂, h₃, h₄⟩ := applyChanges_ok h
  have hblobs := forEach_keeps
    (fun s => (FilesInv s ∧ SameSetup b s) ∧ s.savedTable = b.savedTable) h₁
    (fun _ _ _ _ hinv hstep => (applyBlobFileAddition_ok hstep).toSameFiles.table_step hinv)
    ⟨⟨inv, SameSetup.refl b⟩, rfl⟩
  obtain ⟨hinv, htable⟩ := forEach_keeps
    (fun s => (FilesInv s ∧ SameSetup b s) ∧ s.savedTable = b.savedTable) h₂
    (fun _ _ _ _ hinv hstep => (applyBlobFileGarbage_ok hstep).toSameFiles.table_step hinv) hblobs
  obtain ⟨hinv', hdeleted⟩ := forEach_ok (fun s => FilesInv s ∧ SameSetup b s) Rep.savedTable
    (FileTable.delete b.numLevels) h₃ (fun deleted _ s s' hs hstep => by
      obtain ⟨⟨hfiles, hsetup⟩, heq⟩ := applyFileDeletion_table hs.1 hstep
      rw [hs.2.numLevels] at heq
      exact ⟨⟨hfiles, hs.2.trans hsetup⟩, heq⟩) hinv
  obtain ⟨hinv'', hadded⟩ := forEach_ok (fun s => FilesInv s ∧ SameSetup b s) Rep.savedTable
    (FileTable.add b.numLevels b.LeavesOut) h₄ (fun added _ s s' hs hstep => by
      obtain ⟨⟨hfiles, hsetup⟩, heq⟩ := applyFileAddition_table hs.1 hstep
      rw [hs.2.numLevels, FileTable.add_congr hs.2.leavesOut] at heq
      exact ⟨⟨hfiles, hs.2.trans hsetup⟩, heq⟩) hinv'
  rw [hadded, hdeleted, htable]
  exact ⟨hinv'', rfl⟩

/-- `Apply` succeeds on a consistent base with the changes of the edit; the rest of it leaves the
files. -/
lemma apply_ok [LinearOrder K] (h : apply edit b = (.ok, b')) :
    checkConsistency b.base = .ok ∧ ∃ b₁, applyChanges edit b = (.ok, b₁) ∧ SameFiles b₁ b' ∧
      SameBlobFiles b₁ b' := by
  unfold apply at h
  split at h
  · next hbase =>
    refine ⟨hbase, ?_⟩
    split at h
    · next b₁ hchanges =>
      refine ⟨b₁, hchanges, ?_⟩
      split_ifs at h <;> obtain ⟨-, rfl⟩ := Prod.mk.inj h <;>
        exact ⟨⟨⟨rfl, rfl, rfl, rfl⟩, rfl, rfl, rfl, rfl⟩, rfl, rfl, rfl⟩
    · next hfailed => exact absurd h (hfailed _)
  · next hfailed => exact absurd (Prod.mk.inj h).1 hfailed

/-- **An edit on the table.** Whatever a builder has collected, an edit changes the table in the
same way. -/
lemma apply_table [LinearOrder K] (inv : FilesInv b) (h : apply edit b = (.ok, b')) :
    (FilesInv b' ∧ SameSetup b b') ∧
    b'.savedTable = b.savedTable.edit b.numLevels b.LeavesOut edit := by
  obtain ⟨-, b₁, hchanges, hfiles, -⟩ := apply_ok h
  obtain ⟨⟨hinv, hsetup⟩, htable⟩ := applyChanges_table inv hchanges
  exact ⟨⟨hfiles.filesInv hinv, hsetup.trans hfiles.toSameSetup⟩, hfiles.savedTable.trans htable⟩

end Rep

end BucketLSM.Manifest
