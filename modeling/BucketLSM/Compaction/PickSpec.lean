import BucketLSM.Compaction.LevelBuilder

/-!
# What a pick consists of

Every path through `PickCompaction` is followed to what it can put into the inputs: files of
the right level that are not being compacted, except for a trivial move from level 0, which
takes its files without looking at the flag.
-/

namespace BucketLSM

open List VersionStorageInfo

variable {K D : Type} [LinearOrder K]

namespace VersionStorageInfo

/-! ### Overlapping files are files of the level -/

/-- One pass over level 0 only moves files from one list to the other. -/
lemma mem_of_mem_level0Pass (expandRange : Bool) (range : K × K)
    (index : List (ℕ × FileMetaData K)) :
    (∀ p ∈ (level0Pass expandRange range index).1, p ∈ index) ∧
    ∀ p ∈ (level0Pass expandRange range index).2.1, p ∈ index := by
  induction index generalizing range with
  | nil => simp [level0Pass]
  | cons q index ih =>
    obtain ⟨i, f⟩ := q
    unfold level0Pass
    split_ifs
    · obtain ⟨htaken, hleft⟩ := ih range
      refine ⟨fun p hp => mem_cons_of_mem _ (htaken p hp), fun p hp => ?_⟩
      rcases mem_cons.1 hp with rfl | hp
      · exact mem_cons_self
      · exact mem_cons_of_mem _ (hleft p hp)
    all_goals
      dsimp only
      refine ⟨fun p hp => ?_, fun p hp => mem_cons_of_mem _ ((ih _).2 p hp)⟩
      rcases mem_cons.1 hp with rfl | hp
      · exact mem_cons_self
      · exact mem_cons_of_mem _ ((ih _).1 p hp)

/-- The passes find files of the index they start with. -/
lemma mem_of_mem_level0Passes (expandRange : Bool) (fuel : ℕ) (range : K × K)
    (index : List (ℕ × FileMetaData K)) :
    ∀ p ∈ level0Passes expandRange fuel range index, p ∈ index := by
  induction fuel generalizing range index with
  | zero => simp [level0Passes]
  | succ fuel ih =>
    intro p hp
    obtain ⟨htaken, hleft⟩ := mem_of_mem_level0Pass expandRange range index
    unfold level0Passes at hp
    rcases hpass : level0Pass expandRange range index with ⟨taken, left, range'⟩
    rw [hpass] at hp htaken hleft
    cases taken with
    | nil => exact absurd hp not_mem_nil
    | cons q taken =>
      rcases mem_append.1 hp with hp | hp
      · exact htaken p hp
      · exact hleft p (ih range' left p hp)

/-- The binary search takes a stretch of the level. -/
lemma rangeBinarySearch_sublist (files : List (FileMetaData K))
    (smallest largest : InternalKey K) (hintIndex : Option ℕ) (withinInterval : Bool) :
    List.Sublist (getOverlappingInputsRangeBinarySearch files smallest largest hintIndex
      withinInterval).1 files := by
  unfold getOverlappingInputsRangeBinarySearch
  dsimp only
  split_ifs
  all_goals first
    | exact nil_sublist _
    | exact (drop_sublist _ _).trans (take_sublist _ _)

variable {vs : VersionStorageInfo K D}

/-- `GetOverlappingInputs` finds files of the level it is asked about. -/
lemma mem_of_mem_getOverlappingInputs {level : ℕ} {smallest largest : InternalKey K}
    {hintIndex : Option ℕ} {expandRange : Bool} {f : FileMetaData K}
    (hf : f ∈ (vs.getOverlappingInputs level smallest largest hintIndex expandRange).1) :
    f ∈ vs.levelFiles level := by
  unfold getOverlappingInputs at hf
  split_ifs at hf
  · exact absurd hf not_mem_nil
  · exact (rangeBinarySearch_sublist _ _ _ _ _).subset hf
  · obtain ⟨p, hp, rfl⟩ := mem_map.1 hf
    have hmem := mem_of_mem_level0Passes _ _ _ _ p hp
    obtain ⟨i, hi, rfl⟩ := mem_mapIdx.1 hmem
    exact getElem_mem hi

/-- So does `GetCleanInputsWithinInterval`. -/
lemma mem_of_mem_getCleanInputsWithinInterval {level : ℕ} {smallest largest : InternalKey K}
    {hintIndex : Option ℕ} {f : FileMetaData K}
    (hf : f ∈ vs.getCleanInputsWithinInterval level smallest largest hintIndex) :
    f ∈ vs.levelFiles level := by
  unfold getCleanInputsWithinInterval at hf
  split_ifs at hf
  · exact absurd hf not_mem_nil
  · exact (rangeBinarySearch_sublist _ _ _ _ _).subset hf

end VersionStorageInfo

/-! ### Files of a level, and free files of a level -/

/-- The inputs are files of their level. -/
def FromLevel (vs : VersionStorageInfo K D) (inputs : CompactionInputFiles K) : Prop :=
  ∀ f ∈ inputs.files, f ∈ vs.levelFiles inputs.level

/-- None of the inputs is being compacted. -/
def Free (inputs : CompactionInputFiles K) : Prop :=
  ∀ f ∈ inputs.files, f.beingCompacted = false

variable {files : List (FileMetaData K)} {vs : VersionStorageInfo K D}
  {inputs : CompactionInputFiles K}

/-- `AreFilesInCompaction` is the check that no file is in use. -/
lemma areFilesInCompaction_eq_false :
    areFilesInCompaction files = false ↔ ∀ f ∈ files, f.beingCompacted = false := by
  simp [areFilesInCompaction]

/-- Every round of the expansion stays in the level. -/
lemma mem_expandLoop {level fuel : ℕ} {hintIndex : Option ℕ}
    (hfiles : ∀ f ∈ files, f ∈ vs.levelFiles level) :
    ∀ f ∈ expandLoop vs level fuel files hintIndex, f ∈ vs.levelFiles level := by
  induction fuel generalizing files hintIndex with
  | zero => exact hfiles
  | succ fuel ih =>
    unfold expandLoop
    split
    · exact hfiles
    · dsimp only
      split_ifs
      · exact ih fun f hf => mem_of_mem_getOverlappingInputs hf
      · exact fun f hf => mem_of_mem_getOverlappingInputs hf

/-- The level of the inputs does not change. -/
lemma expandInputsToCleanCut_level (vs : VersionStorageInfo K D) (inputs : CompactionInputFiles K) :
    (expandInputsToCleanCut vs inputs).2.level = inputs.level := by
  unfold expandInputsToCleanCut
  split_ifs <;> rfl

/-- A clean cut consists of files of the level. -/
lemma expandInputsToCleanCut_fromLevel (h : FromLevel vs inputs) :
    FromLevel vs (expandInputsToCleanCut vs inputs).2 := by
  unfold expandInputsToCleanCut
  split_ifs
  · exact h
  · exact mem_expandLoop h

/-- A clean cut is free, if the inputs were or lie above level 0. -/
lemma expandInputsToCleanCut_free (hfree : inputs.level = 0 → Free inputs)
    (h : (expandInputsToCleanCut vs inputs).1 = true) :
    Free (expandInputsToCleanCut vs inputs).2 := by
  unfold expandInputsToCleanCut at h ⊢
  split_ifs at h ⊢ with hlevel
  · exact hfree hlevel
  · exact areFilesInCompaction_eq_false.1 (by simpa using h)

/-! ### Inputs from the output level -/

/-- When the compaction goes on, the inputs of the output level are free files of it. -/
lemma overlappingOutputInputs_spec {outputLevel : ℕ} {range : InternalKey K × InternalKey K}
    {parentIndex : Option ℕ}
    (h : (overlappingOutputInputs vs outputLevel range parentIndex).1 = true) :
    (overlappingOutputInputs vs outputLevel range parentIndex).2.1.level = outputLevel ∧
    FromLevel vs (overlappingOutputInputs vs outputLevel range parentIndex).2.1 ∧
    Free (overlappingOutputInputs vs outputLevel range parentIndex).2.1 := by
  unfold overlappingOutputInputs at h ⊢
  dsimp only at h ⊢
  split_ifs at h ⊢ with hused hempty
  · exact ⟨rfl, fun f hf => absurd hf not_mem_nil, fun f hf => absurd hf not_mem_nil⟩
  · have hfree : Free ⟨outputLevel, (vs.getOverlappingInputs outputLevel range.1 range.2
        parentIndex true).1⟩ := areFilesInCompaction_eq_false.1 (by simpa using hused)
    exact ⟨expandInputsToCleanCut_level _ _, expandInputsToCleanCut_fromLevel
      fun f hf => mem_of_mem_getOverlappingInputs hf,
      expandInputsToCleanCut_free (fun _ => hfree) h⟩

/-- The inputs stay or are replaced by free files of their level: both attempts to grow check
that. -/
lemma growInputs_spec [Double D] (vs : VersionStorageInfo K D) (mopts : MutableCFOptions D)
    (inputs outputInputs : CompactionInputFiles K) (range : InternalKey K × InternalKey K)
    (parentIndex baseIndex : Option ℕ) (right : Bool) :
    growInputs vs mopts inputs outputInputs range parentIndex baseIndex right = inputs ∨
    (growInputs vs mopts inputs outputInputs range parentIndex baseIndex right).level =
      inputs.level ∧
    FromLevel vs (growInputs vs mopts inputs outputInputs range parentIndex baseIndex right) ∧
    Free (growInputs vs mopts inputs outputInputs range parentIndex baseIndex right) := by
  unfold growInputs
  split
  · exact .inl rfl
  · rename_i r _
    dsimp only
    generalize (if right = true then range.1 else (spanRange (some range) r).1) = lower
    split_ifs with hgrow hwithin
    · refine .inr ⟨rfl, fun f hf => ?_, areFilesInCompaction_eq_false.1 hgrow.2.2.1⟩
      have hcand : FromLevel vs ⟨inputs.level, (vs.getOverlappingInputs inputs.level lower
          (spanRange (some range) r).2 baseIndex true).1⟩ :=
        fun g hg => mem_of_mem_getOverlappingInputs hg
      have hexp := expandInputsToCleanCut_fromLevel hcand f hf
      rwa [expandInputsToCleanCut_level] at hexp
    · exact .inr ⟨rfl, fun f hf =>
        mem_of_mem_getCleanInputsWithinInterval hf, areFilesInCompaction_eq_false.1 hwithin.2.1⟩
    · exact .inl rfl

/-- What `SetupOtherInputs` can return when the compaction goes on: the start level inputs,
possibly replaced by free files of their level, and free files of the output level. In the
bucket modes those of level 0 stay. -/
structure OtherInputs (vs : VersionStorageInfo K D) (iopts : ImmutableOptions D)
    (inputs : CompactionInputFiles K) (outputLevel : ℕ)
    (result : CompactionInputFiles K × CompactionInputFiles K) : Prop where
  start : result.1 = inputs ∨ result.1.level = inputs.level ∧ FromLevel vs result.1 ∧ Free result.1
  bucket : inputs.level = 0 → iopts.useNewFlush ≠ 0 → result.1 = inputs
  output_level : result.2.level = outputLevel
  output : FromLevel vs result.2 ∧ Free result.2

/-- Whatever way `SetupOtherInputs` takes to success, it ends with such inputs. -/
lemma setupOtherInputs_spec [Double D] {mopts : MutableCFOptions D} {iopts : ImmutableOptions D}
    {outputLevel : ℕ} {parentIndex baseIndex : Option ℕ} {right : Bool}
    (h : (setupOtherInputs vs mopts iopts inputs outputLevel parentIndex baseIndex right).1 = true)
    : OtherInputs vs iopts inputs outputLevel
      (setupOtherInputs vs mopts iopts inputs outputLevel parentIndex baseIndex right).2 := by
  have hnone : FromLevel vs ⟨outputLevel, []⟩ ∧ Free (⟨outputLevel, []⟩ : CompactionInputFiles K) :=
    ⟨fun f hf => absurd hf not_mem_nil, fun f hf => absurd hf not_mem_nil⟩
  unfold setupOtherInputs at h ⊢
  by_cases hlevel : inputs.level = outputLevel
  · rw [if_pos hlevel]
    exact ⟨.inl rfl, fun _ _ => rfl, rfl, hnone⟩
  rw [if_neg hlevel] at h ⊢
  cases hr : getRange inputs with
  | none => exact ⟨.inl rfl, fun _ _ => rfl, rfl, hnone⟩
  | some range =>
    rw [hr] at h
    dsimp only at h ⊢
    cases hfree : (overlappingOutputInputs vs outputLevel range parentIndex).1 with
    | false => simp [hfree] at h
    | true =>
      obtain ⟨hlvl, hout⟩ := overlappingOutputInputs_spec hfree
      simp only [Bool.not_true, Bool.false_eq_true, if_false]
      split_ifs with hbucket
      · exact ⟨.inl rfl, fun _ _ => rfl, hlvl, hout⟩
      · exact ⟨growInputs_spec _ _ _ _ _ _ _ _, fun h0 hm => absurd ⟨h0, hm⟩ hbucket, hlvl, hout⟩

/-- The marked files that are looked at for a reason. -/
def MarkedFiles.forReason (m : MarkedFiles K) : CompactionReason → List (ℕ × FileMetaData K)
  | .filesMarkedForCompaction => m.forCompaction
  | .bottommostFiles => m.bottommost
  | .ttl => m.expiredTtl
  | .periodicCompaction => m.periodic
  | .forcedBlobGC => m.forcedBlobGC
  | _ => []

/-- What goes down from level 0 without a trivial move: for the score of level 0 a group of
`PickFileToCompact`, for any other reason one of the files marked for it. -/
def Level0Pick (ctx : PickContext K D) (reason : CompactionReason)
    (files : List (FileMetaData K)) : Prop :=
  if reason = .levelL0FilesNum then files ∈ pickGroups (ctx.vstorage.levelFiles 0)
  else ∃ f, (0, f) ∈ ctx.vstorage.marked.forReason reason ∧ files = [f]

namespace LevelCompactionBuilder

/-! ### Stages without a trivial move -/

/-- Nothing has been decided about the compaction yet. -/
def Undecided (b : LevelCompactionBuilder K) : Prop :=
  b.isL0TrivialMove = false ∧ b.compactionReason = .unknown

/-- The inputs are free files of the start level. Those of level 0 stay there or go to the
base level. -/
structure Found (ctx : PickContext K D) (b : LevelCompactionBuilder K) : Prop where
  undecided : b.Undecided
  level : b.startLevelInputs.files ≠ [] → b.startLevelInputs.level = b.startLevel
  mem : ∀ f ∈ b.startLevelInputs.files, f ∈ ctx.vstorage.levelFiles b.startLevel
  free : Free b.startLevelInputs
  output : b.startLevel = 0 → b.startLevelInputs.files ≠ [] →
    b.outputLevel = 0 ∨ b.outputLevel = ctx.vstorage.baseLevel

/-- Without inputs there is nothing to be said about them. -/
lemma Undecided.found_clearInputs {ctx : PickContext K D} {b : LevelCompactionBuilder K}
    (hb : b.Undecided) : Found ctx b.clearInputs where
  undecided := hb
  level h := absurd rfl h
  mem _ hf := absurd hf not_mem_nil
  free _ hf := absurd hf not_mem_nil
  output _ h := absurd rfl h

variable {vs : VersionStorageInfo K D} {files : List (ℕ × FileMetaData K)} {f : FileMetaData K}
  {outputLevel : ℕ} {group : List (FileMetaData K)} {b' : LevelCompactionBuilder K}
  {reason : CompactionReason} {inputs : CompactionInputFiles K}

/-- A marked file is free, and so is the clean cut around it. -/
lemma expand_marked_spec {file : ℕ × FileMetaData K}
    (hfile : file.2 ∈ vs.levelFiles file.1 ∧ file.2.beingCompacted = false)
    (h : (expandInputsToCleanCut vs ⟨file.1, [file.2]⟩).1 = true) :
    (expandInputsToCleanCut vs ⟨file.1, [file.2]⟩).2.level = file.1 ∧
    (∀ f ∈ (expandInputsToCleanCut vs ⟨file.1, [file.2]⟩).2.files, f ∈ vs.levelFiles file.1) ∧
    Free (expandInputsToCleanCut vs ⟨file.1, [file.2]⟩).2 := by
  have hlevel := expandInputsToCleanCut_level vs ⟨file.1, [file.2]⟩
  have hfrom : FromLevel vs ⟨file.1, [file.2]⟩ := fun f hf => by
    rw [mem_singleton.1 hf]
    exact hfile.1
  have hfree : Free (⟨file.1, [file.2]⟩ : CompactionInputFiles K) := fun f hf => by
    rw [mem_singleton.1 hf]
    exact hfile.2
  refine ⟨hlevel, fun f hf => ?_, expandInputsToCleanCut_free (fun _ => hfree) h⟩
  have := expandInputsToCleanCut_fromLevel hfrom f hf
  rwa [hlevel] at this

variable {ctx : PickContext K D} {b : LevelCompactionBuilder K}

/-- The first marked file with a clean cut is found, or none. -/
lemma found_pickFileToCompactFrom (mode : CompactToNextLevel)
    (hfiles : ∀ p ∈ files, p.2 ∈ ctx.vstorage.levelFiles p.1 ∧ p.2.beingCompacted = false)
    (hb : b.Undecided) : Found ctx (pickFileToCompactFrom ctx mode b files) := by
  induction files generalizing b with
  | nil => exact hb.found_clearInputs
  | cons p files ih =>
    obtain ⟨level, f⟩ := p
    have ih' := fun {b : LevelCompactionBuilder K} =>
      ih (b := b) fun q hq => hfiles q (mem_cons_of_mem _ hq)
    unfold pickFileToCompactFrom
    dsimp only
    split_ifs with hskip hserial hclean hmode
    · exact ih' hb
    · exact ih' hb
    · obtain ⟨hlevel, hmem, hfree⟩ :=
        expand_marked_spec (hfiles (level, f) mem_cons_self) hclean
      exact ⟨hb, fun _ => hlevel, hmem, hfree, fun h0 _ => .inr (if_pos h0)⟩
    · obtain ⟨hlevel, hmem, hfree⟩ :=
        expand_marked_spec (hfiles (level, f) mem_cons_self) hclean
      exact ⟨hb, fun _ => hlevel, hmem, hfree, fun h0 _ => .inl h0⟩
    · exact ih' hb
    · exact ih' hb

/-- A file of level 0 from the list is the only input. -/
def Single (files : List (ℕ × FileMetaData K)) (b : LevelCompactionBuilder K) : Prop :=
  b.startLevel = 0 → b.startLevelInputs.files ≠ [] →
    ∃ f, (0, f) ∈ files ∧ b.startLevelInputs.files = [f]

/-- Level 0 has no clean cuts to expand to. -/
lemma single_expand {level : ℕ} (hf : (level, f) ∈ files) (out : ℕ) :
    Single files { b with
      startLevel := level
      outputLevel := out
      startLevelInputs := (expandInputsToCleanCut vs ⟨level, [f]⟩).2 } := by
  rintro (rfl : level = 0) -
  exact ⟨f, hf, rfl⟩

/-- The loop over a list takes one file of level 0 at most. -/
lemma single_pickFileToCompactFrom (mode : CompactToNextLevel)
    {rest : List (ℕ × FileMetaData K)} (hrest : ∀ p ∈ rest, p ∈ files) :
    Single files (pickFileToCompactFrom ctx mode b rest) := by
  induction rest generalizing b with
  | nil => exact fun _ h => absurd rfl h
  | cons p rest ih =>
    have ih' := fun {b : LevelCompactionBuilder K} => @ih b fun q hq =>
      hrest q (mem_cons_of_mem _ hq)
    unfold pickFileToCompactFrom
    dsimp only
    split_ifs
    -- skipped, or refused because of a serial level 0; then taken for the next level or its own
    iterate 2 exact ih'
    iterate 2 exact single_expand (hrest p mem_cons_self) _
    iterate 2 exact ih'

/-- So does a try that succeeds. -/
lemma single_tryMarkedFile {file : ℕ × FileMetaData K} (hfile : file ∈ files)
    (h : (tryMarkedFile ctx b file).1 = true) : Single files (tryMarkedFile ctx b file).2 := by
  unfold tryMarkedFile at h ⊢
  dsimp only at h ⊢
  split_ifs at h ⊢
  exact single_expand hfile _

/-- And the loop over these tries. -/
lemma single_tryMarkedFiles {rest : List (ℕ × FileMetaData K)} (hrest : ∀ p ∈ rest, p ∈ files) :
    Single files (tryMarkedFiles ctx b rest) := by
  induction rest generalizing b with
  | nil => exact fun _ h => absurd rfl h
  | cons p rest ih =>
    have hp : (tryMarkedFile ctx b p).1 = true → Single files (tryMarkedFile ctx b p).2 :=
      single_tryMarkedFile (hrest p mem_cons_self)
    unfold tryMarkedFiles
    rcases htry : tryMarkedFile ctx b p with ⟨_ | _, b'⟩
    · exact ih fun q hq => hrest q (mem_cons_of_mem _ hq)
    · rw [htry] at hp
      exact hp rfl

/-- `PickFilesMarkedForCompaction` takes one marked file of level 0, the random one or another. -/
lemma single_pickFilesMarkedForCompaction (hempty : b.startLevelInputs.files = []) :
    Single ctx.vstorage.marked.forCompaction (pickFilesMarkedForCompaction ctx b) := by
  unfold pickFilesMarkedForCompaction
  dsimp only
  split
  · exact fun _ h => absurd hempty h
  · rename_i file hfile
    have hp : (tryMarkedFile ctx b file).1 = true → Single _ (tryMarkedFile ctx b file).2 :=
      single_tryMarkedFile (mem_of_getElem? hfile)
    rcases htry : tryMarkedFile ctx b file with ⟨_ | _, b'⟩
    · exact single_tryMarkedFiles fun _ hq => hq
    · rw [htry] at hp
      exact hp rfl

/-- A try decides nothing but the inputs. -/
lemma tryMarkedFile_spec {file : ℕ × FileMetaData K}
    (hfile : file.2 ∈ ctx.vstorage.levelFiles file.1 ∧ file.2.beingCompacted = false)
    (hb : b.Undecided) : (tryMarkedFile ctx b file).2.Undecided ∧
      ((tryMarkedFile ctx b file).1 = true → Found ctx (tryMarkedFile ctx b file).2) := by
  unfold tryMarkedFile
  dsimp only
  split_ifs
  · exact ⟨hb, fun h => absurd h (by simp)⟩
  · refine ⟨hb, fun hclean => ?_⟩
    obtain ⟨hlevel, hmem, hfree⟩ := expand_marked_spec hfile hclean
    exact ⟨hb, fun _ => hlevel, hmem, hfree, fun h0 _ => .inr (if_pos h0)⟩

/-- What the loop of tries leaves. -/
lemma found_tryMarkedFiles
    (hfiles : ∀ p ∈ files, p.2 ∈ ctx.vstorage.levelFiles p.1 ∧ p.2.beingCompacted = false)
    (hb : b.Undecided) : Found ctx (tryMarkedFiles ctx b files) := by
  induction files generalizing b with
  | nil => exact hb.found_clearInputs
  | cons p files ih =>
    obtain ⟨hund, hfound⟩ := tryMarkedFile_spec (hfiles p mem_cons_self) hb
    unfold tryMarkedFiles
    rcases htry : tryMarkedFile ctx b p with ⟨_ | _, b'⟩
    · rw [htry] at hund
      exact ih (fun q hq => hfiles q (mem_cons_of_mem _ hq)) hund
    · rw [htry] at hfound
      exact hfound rfl

/-- What `PickFilesMarkedForCompaction` leaves, whichever file comes first. -/
lemma found_pickFilesMarkedForCompaction (ctx : PickContext K D)
    (b : LevelCompactionBuilder K) (hb : b.Undecided) (hempty : b.startLevelInputs.files = []) :
    Found ctx (pickFilesMarkedForCompaction ctx b) := by
  have hfiles : ∀ p ∈ ctx.vstorage.marked.forCompaction,
      p.2 ∈ ctx.vstorage.levelFiles p.1 ∧ p.2.beingCompacted = false := fun p hp =>
    ctx.vstorage.marked_active p (by simp [MarkedFiles.all, hp])
  unfold pickFilesMarkedForCompaction
  dsimp only
  split
  · exact ⟨hb, fun h => absurd hempty h, by simp [hempty], by simp [Free, hempty],
      fun _ h => absurd hempty h⟩
  · rename_i file hfile
    obtain ⟨hund, hfound⟩ := tryMarkedFile_spec (hfiles file (mem_of_getElem? hfile)) hb
    rcases htry : tryMarkedFile ctx b file with ⟨_ | _, b'⟩
    · rw [htry] at hund
      exact found_tryMarkedFiles hfiles hund
    · rw [htry] at hfound
      exact hfound rfl

/-! ### Files above level 0 -/

/-- Files that the move is extended by towards larger keys are free files of the level. -/
lemma extendRight_spec {initial : FileMetaData K} {inputs files : List (FileMetaData K)}
    {totalSize : ℕ} (hf : f ∈ (extendRight ctx outputLevel initial inputs totalSize files).1) :
    f ∈ inputs ∨ f ∈ files ∧ f.beingCompacted = false := by
  induction files generalizing inputs totalSize with
  | nil => exact .inl hf
  | cons next rest ih =>
    unfold extendRight at hf
    split_ifs at hf with hstop
    · exact .inl hf
    · exact .inl hf
    · exact .inl hf
    · exact .inl hf
    · rcases ih hf with hf | ⟨hf, hfree⟩
      · rcases mem_append.1 hf with hf | hf
        · exact .inl hf
        · rw [mem_singleton.1 hf]
          exact .inr ⟨mem_cons_self, by simpa using (not_or.1 hstop).2⟩
      · exact .inr ⟨mem_cons_of_mem _ hf, hfree⟩

/-- The same towards smaller keys. -/
lemma extendLeft_spec {initial : FileMetaData K} {inputs files : List (FileMetaData K)}
    {totalSize : ℕ} (hf : f ∈ extendLeft ctx outputLevel initial inputs totalSize files) :
    f ∈ inputs ∨ f ∈ files ∧ f.beingCompacted = false := by
  induction files generalizing inputs totalSize with
  | nil => exact .inl hf
  | cons next rest ih =>
    unfold extendLeft at hf
    split_ifs at hf with hstop
    · exact .inl hf
    · exact .inl hf
    · exact .inl hf
    · exact .inl hf
    · rcases ih hf with hf | ⟨hf, hfree⟩
      · rcases mem_cons.1 hf with rfl | hf
        · exact .inr ⟨mem_cons_self, by simpa using (not_or.1 hstop).2⟩
        · exact .inl hf
      · exact .inr ⟨mem_cons_of_mem _ hf, hfree⟩

/-- Extending a trivial move above level 0 changes nothing but the inputs, and adds free
files of the level to them. -/
lemma tryExtendNonL0TrivialMove_spec (ctx : PickContext K D) (b : LevelCompactionBuilder K)
    (startIndex : ℕ) (onlyExpandRight : Bool) :
    ∃ files, (tryExtendNonL0TrivialMove ctx b startIndex onlyExpandRight).2 =
        { b with startLevelInputs := ⟨b.startLevelInputs.level, files⟩ } ∧
      ∀ f ∈ files, f ∈ b.startLevelInputs.files ∨
        f ∈ ctx.vstorage.levelFiles b.startLevel ∧ f.beingCompacted = false := by
  unfold tryExtendNonL0TrivialMove
  split
  · rename_i initial hinitial
    split_ifs with hcond hright
    · refine ⟨_, rfl, fun f hf => ?_⟩
      rcases extendRight_spec hf with hf | ⟨hf, hfree⟩
      · exact .inl (hinitial ▸ hf)
      · exact .inr ⟨mem_of_mem_drop hf, hfree⟩
    · refine ⟨_, rfl, fun f hf => ?_⟩
      rcases extendLeft_spec hf with hf | ⟨hf, hfree⟩
      · rcases extendRight_spec hf with hf | ⟨hf, hfree⟩
        · exact .inl (hinitial ▸ hf)
        · exact .inr ⟨mem_of_mem_drop hf, hfree⟩
      · exact .inr ⟨mem_of_mem_take (mem_reverse.1 hf), hfree⟩
    · exact ⟨_, rfl, fun f hf => .inl hf⟩
  · exact ⟨_, rfl, fun f hf => .inl hf⟩

/-- Where `pickByPriority` stands: it keeps the start level `from` and the output level `to`,
and its inputs are free files of the start level. -/
structure Searching (ctx : PickContext K D) (start out : ℕ) (b : LevelCompactionBuilder K) :
    Prop where
  undecided : b.Undecided
  startLevel : b.startLevel = start
  outputLevel : b.outputLevel = out
  level : b.startLevelInputs.level = start
  mem : ∀ f ∈ b.startLevelInputs.files, f ∈ ctx.vstorage.levelFiles start
  free : Free b.startLevelInputs

variable {start out : ℕ}

section

variable (h : Searching ctx start out b)

include h

/-- The search goes on after the inputs have been cleared. -/
lemma Searching.clearInputs : Searching ctx start out b.clearInputs :=
  ⟨h.undecided, h.startLevel, h.outputLevel, h.level, fun _ hf => absurd hf not_mem_nil,
    fun _ hf => absurd hf not_mem_nil⟩

/-- A file that is not being compacted is added and the inputs are cut clean. -/
lemma Searching.expand (hf : f ∈ ctx.vstorage.levelFiles start)
    (hfree : f.beingCompacted = false) (hclean : (expandInputsToCleanCut ctx.vstorage
      ⟨b.startLevelInputs.level, b.startLevelInputs.files ++ [f]⟩).1 = true) :
    Searching ctx start out { b with startLevelInputs := (expandInputsToCleanCut ctx.vstorage
      ⟨b.startLevelInputs.level, b.startLevelInputs.files ++ [f]⟩).2 } := by
  have hfrom : FromLevel ctx.vstorage
      ⟨b.startLevelInputs.level, b.startLevelInputs.files ++ [f]⟩ := by
    intro g hg
    rw [h.level]
    rcases mem_append.1 hg with hg | hg
    · exact h.mem g hg
    · exact mem_singleton.1 hg ▸ hf
  have hall : Free ⟨b.startLevelInputs.level, b.startLevelInputs.files ++ [f]⟩ := by
    intro g hg
    rcases mem_append.1 hg with hg | hg
    · exact h.free g hg
    · exact mem_singleton.1 hg ▸ hfree
  have hlevel := (expandInputsToCleanCut_level ctx.vstorage
    ⟨b.startLevelInputs.level, b.startLevelInputs.files ++ [f]⟩).trans h.level
  refine ⟨h.undecided, h.startLevel, h.outputLevel, hlevel, fun g hg => ?_,
    expandInputsToCleanCut_free (fun _ => hall) hclean⟩
  have := expandInputsToCleanCut_fromLevel hfrom g hg
  rwa [hlevel] at this

/-- An extended trivial move takes further free files of the start level. -/
lemma Searching.tryExtend (startIndex : ℕ) (onlyExpandRight : Bool) :
    Searching ctx start out (tryExtendNonL0TrivialMove ctx b startIndex onlyExpandRight).2 := by
  obtain ⟨files, heq, hfiles⟩ := tryExtendNonL0TrivialMove_spec ctx b startIndex onlyExpandRight
  rw [heq]
  refine ⟨h.undecided, h.startLevel, h.outputLevel, h.level, fun f hf => ?_, fun f hf => ?_⟩
  · rcases hfiles f hf with hf | ⟨hf, -⟩
    · exact h.mem f hf
    · exact h.startLevel ▸ hf
  · rcases hfiles f hf with hf | ⟨-, hfree⟩
    · exact h.free f hf
    · exact hfree

/-- The index hint is of no consequence for the inputs. -/
lemma Searching.baseIndex (index : Option ℕ) :
    Searching ctx start out { b with baseIndex := index } :=
  ⟨h.undecided, h.startLevel, h.outputLevel, h.level, h.mem, h.free⟩

/-- One file of the priority order, with its clean cut. -/
lemma Searching.tryFileByPriority (index : ℕ)
    (hf : f ∈ ctx.vstorage.levelFiles start) (hfree : f.beingCompacted = false) :
    Searching ctx start out (tryFileByPriority ctx b index f).2 := by
  unfold LevelCompactionBuilder.tryFileByPriority
  dsimp only
  split
  · exact h.clearInputs
  · rename_i hok
    have hexp := h.expand hf hfree (by simpa using (not_or.1 hok).1)
    split
    · split_ifs
      · exact hexp.tryExtend _ _
      · exact (hexp.tryExtend _ _).baseIndex _
      · exact hexp
      · exact hexp.baseIndex _
    · split
      · exact hexp.clearInputs
      · exact hexp.baseIndex _

/-- The loop over the priority order, by induction on the indices that are left. -/
lemma Searching.pickByPriority (cmpIdx : ℕ) (indices : List ℕ) :
    Searching ctx start out (pickByPriority ctx b cmpIdx indices).1 := by
  induction indices generalizing b cmpIdx with
  | nil => exact h
  | cons index rest ih =>
    unfold pickByPriority
    split
    · exact ih h _
    · rename_i f hf
      have hf' : f ∈ ctx.vstorage.levelFiles start :=
        h.startLevel ▸ mem_of_getElem? hf
      have htry : Searching ctx start out (if f.beingCompacted = true then (false, b)
            else LevelCompactionBuilder.tryFileByPriority ctx b index f).2 := by
        split_ifs with hfree
        · exact h
        · exact h.tryFileByPriority index hf' (by simpa using hfree)
      split
      · rename_i b' heq
        rw [heq] at htry
        exact htry
      · rename_i b' heq
        rw [heq] at htry
        split_ifs
        · exact htry
        · exact ih htry _

/-- The whole search by priority. -/
lemma Searching.pickFileByPriority : Searching ctx start out (pickFileByPriority ctx b).2 := by
  unfold LevelCompactionBuilder.pickFileByPriority
  have hpick := h.pickByPriority (b.nextCompactionIndex b.startLevel)
    ((ctx.vstorage.filesByCompactionPri b.startLevel).drop (b.nextCompactionIndex b.startLevel))
  dsimp only
  split
  · rename_i b' heq
    rw [heq] at hpick
    exact hpick
  · rename_i b' cmpIdx heq
    rw [heq] at hpick
    split_ifs
    · exact hpick
    · exact ⟨hpick.undecided, hpick.startLevel, hpick.outputLevel, hpick.level, hpick.mem,
        hpick.free⟩

end

/-- It reports success only with inputs. -/
lemma pickFileByPriority_files_ne_nil (h : (pickFileByPriority ctx b).1 = true) :
    (pickFileByPriority ctx b).2.startLevelInputs.files ≠ [] := by
  unfold pickFileByPriority at h ⊢
  dsimp only at h ⊢
  split at h
  · exact absurd h (by simp)
  · exact of_decide_eq_true h

/-! ### All stages -/

/-- `TryPickL0TrivialMove` looks for files to move to the base level. -/
def TrivialMovesEnabled (ctx : PickContext K D) : Prop :=
  ctx.vstorage.baseLevel ≠ 0 ∧ ctx.mopts.compressionPerLevelEmpty = true ∧
    ctx.vstorage.levelFiles ctx.vstorage.baseLevel ≠ [] ∧ ctx.iopts.dbPaths ≤ 1

/-- The inputs are those of a trivial move: the base level and the files the loop over
level 0 takes. -/
structure TrivialMove (ctx : PickContext K D) (b : LevelCompactionBuilder K) : Prop where
  startLevel : b.startLevel = 0
  level : b.startLevelInputs.level = 0
  outputLevel : b.outputLevel = ctx.vstorage.baseLevel
  enabled : TrivialMovesEnabled ctx
  mem_iff : ∀ f, f ∈ b.startLevelInputs.files ↔ f ∈ trivialMoveLoop ctx.vstorage
    ctx.vstorage.baseLevel none (ctx.vstorage.levelFiles 0).reverse

/-- What a stage leaves: free files of the start level, or a trivial move. -/
def Picked (ctx : PickContext K D) (b : LevelCompactionBuilder K) : Prop :=
  Found ctx b ∨ b.isL0TrivialMove = true ∧ b.compactionReason = .unknown ∧
      b.startLevelInputs.files ≠ [] ∧ TrivialMove ctx b

/-- The inputs that a search by priority ends with. -/
lemma Searching.found (h : Searching ctx start out b)
    (hout : start = 0 → out = 0 ∨ out = ctx.vstorage.baseLevel) : Found ctx b :=
  ⟨h.undecided, fun _ => h.level.trans h.startLevel.symm, h.startLevel ▸ h.mem, h.free,
    fun h0 _ => h.outputLevel ▸ hout (h.startLevel ▸ h0)⟩

/-- A group of active files, with the output level it goes to. -/
lemma found_of_group (hb : b.Undecided) (hstart : b.startLevel = 0)
    (hgroup : ∀ f ∈ group, ActiveIn (ctx.vstorage.levelFiles 0) f)
    (hout : out = 0 ∨ out = ctx.vstorage.baseLevel) :
    Found ctx { b with startLevelInputs := ⟨0, group⟩, outputLevel := out } :=
  ⟨hb, fun _ => hstart.symm, fun f hf => by
    change f ∈ ctx.vstorage.levelFiles b.startLevel
    rw [hstart]
    exact (hgroup f hf).1, fun f hf => (hgroup f hf).2, fun _ _ => hout⟩

/-- The groups by internal keys are not empty and consist of active files. -/
lemma findL0OverlappingGroups_spec {sh : Shuffle} {l0 : List (FileMetaData K)}
    (hgroup : group ∈ findL0OverlappingGroups sh l0) : group ≠ [] ∧ ∀ f ∈ group, ActiveIn l0 f := by
  have hmem := (sh.mem_stdSort _ _ _).1 hgroup
  exact ⟨group_ne_nil hmem, fun f hf => active_of_mem_group hmem hf⟩

/-- A compaction within level 0 takes one of these groups. -/
lemma pickIntraL0Compaction_spec (h : pickIntraL0Compaction ctx b = some b') :
    ∃ group ∈ findL0OverlappingGroups ctx.shuffle (ctx.vstorage.levelFiles 0),
      b' = { b with startLevelInputs := ⟨0, group⟩ } := by
  unfold pickIntraL0Compaction at h
  dsimp only at h
  split_ifs at h
  obtain ⟨group, hfind, rfl⟩ := Option.map_eq_some_iff.1 h
  exact ⟨group, mem_of_find?_eq_some hfind, rfl⟩

/-- A trivial move that is found goes from level 0 to the base level. -/
lemma tryPickL0TrivialMove_spec (hlevel : b.startLevelInputs = ⟨b.startLevel, []⟩)
    (hout : b.startLevel = 0 → b.outputLevel = ctx.vstorage.baseLevel)
    (h : tryPickL0TrivialMove ctx b = some b') :
    b'.startLevel = b.startLevel ∧ b'.isL0TrivialMove = true ∧
      b'.compactionReason = b.compactionReason ∧
      b'.startLevelInputs.files ≠ [] ∧ TrivialMove ctx b' := by
  unfold tryPickL0TrivialMove at h
  dsimp only at h
  split_ifs at h with hbase hcond hempty hempty
  · obtain rfl := Option.some.inj h
    rw [hlevel, hout hcond.1] at hempty
    refine ⟨rfl, rfl, rfl, ?_, hcond.1, ?_, hout hcond.1,
      ⟨hbase, hcond.2.1, hout hcond.1 ▸ hcond.2.2.1, hcond.2.2.2⟩, fun f => ?_⟩
    · obtain ⟨f, hf⟩ := exists_mem_of_ne_nil _ hempty
      refine ne_nil_of_mem (a := f) ((ctx.shuffle.mem_stdSort _ _ _).2 ?_)
      rw [hlevel, hout hcond.1]
      exact hf
    · exact (congrArg CompactionInputFiles.level hlevel).trans hcond.1
    · dsimp only
      rw [ctx.shuffle.mem_stdSort, hlevel, hout hcond.1]
      exact Iff.rfl
  · rw [hlevel] at hempty
    exact absurd rfl hempty

variable [Double D]

/-- The size-based compaction within level 0 takes one of the groups, too. -/
lemma pickSizeBasedIntraL0Compaction_spec (h : pickSizeBasedIntraL0Compaction ctx b = some b') :
    ∃ group ∈ findL0OverlappingGroups ctx.shuffle (ctx.vstorage.levelFiles 0),
      b' = { b with startLevelInputs := ⟨0, group⟩, outputLevel := 0 } := by
  unfold pickSizeBasedIntraL0Compaction at h
  dsimp only at h
  split_ifs at h
  obtain ⟨group, hfind, rfl⟩ := Option.map_eq_some_iff.1 h
  exact ⟨group, mem_of_find?_eq_some hfind, rfl⟩

/-- Ranking the groups loses none and adds none. -/
lemma mem_pickGroups_of_rankedGroups (h : group ∈ rankedGroups ctx outputLevel) :
    group ∈ pickGroups (ctx.vstorage.levelFiles 0) := by
  unfold rankedGroups at h
  dsimp only at h
  split_ifs at h
  · obtain ⟨gs, hgs, rfl⟩ := mem_map.1 h
    obtain ⟨gs', hgs', rfl⟩ := mem_map.1 ((ctx.shuffle.mem_stdSort _ _ _).1 hgs)
    obtain ⟨files, hfiles, rfl⟩ := mem_map.1 hgs'
    exact hfiles
  · exact (ctx.shuffle.mem_stdSort _ _ _).1 h

/-- Without groups there are no active files. -/
lemma not_active_of_rankedGroups (h : rankedGroups ctx outputLevel = []) :
    ¬ ActiveIn (ctx.vstorage.levelFiles 0) f := by
  have hsort : ∀ {α : Type} {before : α → α → Bool} {l : List α},
      ctx.shuffle.stdSort before l = [] → l = [] := fun {α before l} hs =>
    eq_nil_iff_forall_not_mem.2 fun a ha =>
      absurd (hs ▸ (ctx.shuffle.mem_stdSort before l a).2 ha) not_mem_nil
  have hgroups : pickGroups (ctx.vstorage.levelFiles 0) = [] := by
    unfold rankedGroups at h
    dsimp only at h
    split_ifs at h
    · exact map_eq_nil_iff.1 (map_eq_nil_iff.1 (hsort (map_eq_nil_iff.1 h)))
    · exact hsort h
  intro hactive
  obtain ⟨group, hgroup, -⟩ : ∃ group ∈ pickGroups (ctx.vstorage.levelFiles 0), f ∈ group :=
    exists_group hactive
  exact absurd (hgroups ▸ hgroup) not_mem_nil

/-- `PickFileToCompact` finds free files of the start level or a trivial move. What goes down
from level 0 otherwise is one of the groups. -/
lemma pickFileToCompact_spec {ctx : PickContext K D} (hmode : ctx.iopts.useNewFlush ≠ 0)
    (b : LevelCompactionBuilder K) (hb : b.Undecided)
    (hout : b.startLevel = 0 → b.outputLevel = ctx.vstorage.baseLevel) :
    (pickFileToCompact ctx b).2.startLevel = b.startLevel ∧
    ((pickFileToCompact ctx b).1 = true → Picked ctx (pickFileToCompact ctx b).2 ∧
      (pickFileToCompact ctx b).2.startLevelInputs.files ≠ [] ∧
      (b.startLevel = 0 → (pickFileToCompact ctx b).2.outputLevel ≠ 0 →
        (pickFileToCompact ctx b).2.isL0TrivialMove = false →
        (pickFileToCompact ctx b).2.startLevelInputs.files ∈
          pickGroups (ctx.vstorage.levelFiles 0))) ∧
    ((pickFileToCompact ctx b).1 = false → Found ctx (pickFileToCompact ctx b).2) := by
  unfold pickFileToCompact
  rw [if_neg fun h => hmode h.2.1]
  dsimp only
  have hsearch : Searching ctx b.startLevel b.outputLevel
      { b with startLevelInputs := ⟨b.startLevel, []⟩ } :=
    ⟨hb, rfl, rfl, rfl, fun _ hf => absurd hf not_mem_nil, fun _ hf => absurd hf not_mem_nil⟩
  have hprio := hsearch.pickFileByPriority
  have hpriof := hprio.found fun h0 => .inr (hout h0)
  -- a trivial move comes first, then a compaction within level 0 for its size, then the groups
  split
  · rename_i b' htriv
    obtain ⟨h1, h2, h3, h4, h5⟩ := tryPickL0TrivialMove_spec
      (b := { b with startLevelInputs := ⟨b.startLevel, []⟩ }) rfl hout htriv
    exact ⟨h1, fun _ => ⟨.inr ⟨h2, h3.trans hb.2, h4, h5⟩, h4,
      fun _ _ h => absurd (h2.symm.trans h) (by simp)⟩, fun h => absurd h (by simp)⟩
  · split
    · rename_i b' hsize
      split_ifs at hsize with h0
      obtain ⟨group, hgroup, rfl⟩ := pickSizeBasedIntraL0Compaction_spec hsize
      obtain ⟨hne, hactive⟩ := findL0OverlappingGroups_spec hgroup
      exact ⟨rfl, fun _ => ⟨.inl (found_of_group hb h0 hactive (.inl rfl)), hne,
        fun _ h => absurd rfl h⟩, fun h => absurd h (by simp)⟩
    · split_ifs with h0
      · split
        · rename_i group rest hranked
          have hgroup : group ∈ rankedGroups ctx b.outputLevel := by
            rw [hranked]
            exact mem_cons_self
          have hpick := mem_pickGroups_of_rankedGroups hgroup
          exact ⟨rfl, fun _ => ⟨.inl (found_of_group hb h0.1
            (fun f hf => active_of_mem_group hpick hf) (.inr (hout h0.1))),
            group_ne_nil hpick, fun _ _ _ => hpick⟩, fun h => absurd h (by simp)⟩
        · rename_i hranked
          refine ⟨hprio.startLevel, fun h => ?_, fun _ => hpriof⟩
          have hne := pickFileByPriority_files_ne_nil h
          -- a file found by priority would be active, and in a group
          obtain ⟨f, hf⟩ := exists_mem_of_ne_nil _ hne
          exact absurd ⟨h0.1 ▸ hprio.mem f hf, hprio.free f hf⟩ (not_active_of_rankedGroups hranked)
      · exact ⟨hprio.startLevel, fun h => ⟨.inl hpriof, pickFileByPriority_files_ne_nil h,
          fun hstart => absurd ⟨hstart, hmode⟩ h0⟩, fun _ => hpriof⟩

/-- The initial files: free files of the start level or a trivial move. The reason is a level's
size only above level 0. -/
structure Chosen (ctx : PickContext K D) (b : LevelCompactionBuilder K) : Prop where
  level : b.startLevelInputs.files ≠ [] → b.startLevelInputs.level = b.startLevel
  mem : ∀ f ∈ b.startLevelInputs.files, f ∈ ctx.vstorage.levelFiles b.startLevel
  output : b.startLevel = 0 → b.startLevelInputs.files ≠ [] →
    b.outputLevel = 0 ∨ b.outputLevel = ctx.vstorage.baseLevel
  reason : b.compactionReason = .levelMaxLevelSize → b.startLevel ≠ 0
  free_or_trivial : b.isL0TrivialMove = false ∧ Free b.startLevelInputs ∨
    b.isL0TrivialMove = true ∧ TrivialMove ctx b
  undecided : b.startLevelInputs.files = [] → b.Undecided
  level0 : b.startLevel = 0 → b.outputLevel ≠ 0 → b.isL0TrivialMove = false →
    b.startLevelInputs.files ≠ [] → Level0Pick ctx b.compactionReason b.startLevelInputs.files

omit [Double D] in
/-- A trivial move takes files of the list it runs over. -/
lemma mem_of_mem_trivialMoveLoop {range : Option (InternalKey K × InternalKey K)}
    {files : List (FileMetaData K)} (hf : f ∈ trivialMoveLoop vs outputLevel range files) :
    f ∈ files := by
  induction files generalizing range with
  | nil => exact hf
  | cons g files ih =>
    unfold trivialMoveLoop at hf
    split at hf
    · exact absurd hf not_mem_nil
    · split_ifs at hf
      · rcases mem_cons.1 hf with rfl | hf
        · exact mem_cons_self
        · exact mem_cons_of_mem _ (ih hf)
      · exact absurd hf not_mem_nil

omit [Double D] in
/-- A stage that has found nothing in level 0 may still hand on files of another level. -/
lemma Found.chosen (h : Found ctx b) (hdone : b.startLevel = 0 → b.startLevelInputs.files = []) :
    Chosen ctx b :=
  ⟨h.level, h.mem, h.output, fun hr => by rw [h.undecided.2] at hr; exact absurd hr (by simp),
    .inl ⟨h.undecided.1, h.free⟩, fun _ => h.undecided, fun h0 _ _ hne => absurd (hdone h0) hne⟩

omit [Double D] in
/-- A pick becomes the choice when it gets its reason. -/
lemma Picked.chosen (h : Picked ctx b) (hfiles : b.startLevelInputs.files ≠ [])
    (hreason : reason = .levelMaxLevelSize → b.startLevel ≠ 0)
    (hlevel0 : b.startLevel = 0 → b.outputLevel ≠ 0 → b.isL0TrivialMove = false →
      Level0Pick ctx reason b.startLevelInputs.files) :
    Chosen ctx { b with compactionReason := reason } := by
  rcases h with h | ⟨htriv, -, -, h⟩
  · exact ⟨h.level, h.mem, h.output, hreason, .inl ⟨h.undecided.1, h.free⟩,
      fun he => absurd he hfiles, fun h0 hout hplain _ => hlevel0 h0 hout hplain⟩
  · refine ⟨fun _ => h.level.trans h.startLevel.symm, fun f hf => ?_,
      fun _ _ => .inr h.outputLevel, hreason,
      .inr ⟨htriv, h.startLevel, h.level, h.outputLevel, h.enabled, h.mem_iff⟩,
      fun he => absurd he hfiles, fun h0 hout hplain _ => hlevel0 h0 hout hplain⟩
    change f ∈ ctx.vstorage.levelFiles b.startLevel
    rw [h.startLevel]
    exact mem_reverse.1 (mem_of_mem_trivialMoveLoop ((h.mem_iff f).1 hf))

omit [Double D] in
/-- Nothing is chosen yet. -/
lemma Undecided.chosen_of_empty (hb : b.Undecided) (hempty : b.startLevelInputs.files = []) :
    Chosen ctx b :=
  ⟨fun h => absurd hempty h, by simp [hempty], fun _ h => absurd hempty h,
    fun hr => by rw [hb.2] at hr; exact absurd hr (by simp),
    .inl ⟨hb.1, by simp [Free, hempty]⟩, fun _ => hb, fun _ _ _ h => absurd hempty h⟩

/-- The choice by score: trivial moves and groups from level 0, files by priority from the
others. -/
lemma chosen_pickByScore (hmode : ctx.iopts.useNewFlush ≠ 0) (skipped : Bool)
    (scores : List (ℕ × D)) (hb : b.Undecided) (hempty : b.startLevelInputs.files = []) :
    Chosen ctx (pickByScore ctx skipped b scores) := by
  induction scores generalizing skipped b with
  | nil => exact hb.chosen_of_empty hempty
  | cons score scores ih =>
    obtain ⟨level, score⟩ := score
    unfold pickByScore
    -- the scores come highest first, so the loop ends at the first one below 1
    by_cases hscore : Double.le (Double.lit 1) score = true
    · rw [if_pos hscore]
      dsimp only
      -- where level 0 could not go to the base level, that level does not go on either
      by_cases hskip : skipped = true ∧ level = ctx.vstorage.baseLevel
      · rw [if_pos hskip]
        exact ih skipped hb hempty
      rw [if_neg hskip]
      obtain ⟨hstart, htrue, hfalse⟩ := pickFileToCompact_spec hmode
        { b with startLevel := level, outputLevel := nextLevel ctx level } hb (fun h0 => if_pos h0)
      split
      · rename_i b' heq
        rw [heq] at hstart htrue
        obtain ⟨hpicked, hne, hgroup⟩ := htrue rfl
        refine hpicked.chosen hne (fun hreason => ?_) fun h0 hout hplain => ?_
        · rw [hstart]
          rintro (rfl : level = 0)
          exact absurd hreason (by simp)
        · have hlevel : level = 0 := hstart.symm.trans h0
          rw [if_pos hlevel, Level0Pick, if_pos rfl]
          exact hgroup hlevel hout hplain
      · rename_i b' heq
        rw [heq] at hstart hfalse
        -- the inputs are cleared, and level 0 may still be compacted within itself
        have hund : b'.clearInputs.Undecided := (hfalse rfl).undecided
        split_ifs with h0
        · split
          · rename_i b'' hintra
            obtain ⟨group, hgroup, rfl⟩ := pickIntraL0Compaction_spec hintra
            obtain ⟨hne, hactive⟩ := findL0OverlappingGroups_spec hgroup
            have hfound : Found ctx { b'.clearInputs with
                startLevelInputs := ⟨0, group⟩, outputLevel := 0 } :=
              found_of_group hund (hstart.trans h0) hactive (.inl rfl)
            exact Picked.chosen (.inl hfound) hne (fun h => absurd h (by simp))
              fun _ h => absurd rfl h
          · exact ih true hund rfl
        · exact ih skipped hund rfl
    · rw [if_neg hscore]
      exact Undecided.chosen_of_empty hb hempty

omit [Double D] in
/-- Stages in a row: the next one starts undecided and without inputs. -/
lemma Chosen.orElse {next : LevelCompactionBuilder K → LevelCompactionBuilder K} (h : Chosen ctx b)
    (hnext : ∀ {b : LevelCompactionBuilder K}, b.Undecided → b.startLevelInputs.files = [] →
      Chosen ctx (next b)) : Chosen ctx (b.orElse next) := by
  unfold LevelCompactionBuilder.orElse
  split_ifs with hfiles
  · exact h
  · exact hnext (h.undecided (not_not.1 hfiles)) (not_not.1 hfiles)

omit [Double D] in
/-- The choice of a file from one of the lists of marked files. -/
lemma chosen_pickMarked
    (hfiles : ∀ p ∈ files, p.2 ∈ ctx.vstorage.levelFiles p.1 ∧ p.2.beingCompacted = false)
    (mode : CompactToNextLevel) (hreason : reason ≠ .levelMaxLevelSize ∧ reason ≠ .levelL0FilesNum)
    (hlist : files = ctx.vstorage.marked.forReason reason) (hb : b.Undecided) :
    Chosen ctx (pickMarked ctx files mode reason b) := by
  have hfound := found_pickFileToCompactFrom mode hfiles hb
  have hsingle : Single files (pickFileToCompactFrom ctx mode b files) :=
    single_pickFileToCompactFrom mode fun _ hp => hp
  unfold pickMarked
  dsimp only
  split_ifs with hne
  · refine Picked.chosen (.inl hfound) hne (fun h => absurd h hreason.1) fun h0 _ _ => ?_
    rw [Level0Pick, if_neg hreason.2, ← hlist]
    exact hsingle h0 hne
  · exact hfound.chosen fun _ => not_not.1 hne

omit [Double D] in
/-- The choice of a file marked for compaction. -/
lemma chosen_pickMarkedForCompaction (hb : b.Undecided)
    (hempty : b.startLevelInputs.files = []) : Chosen ctx (pickMarkedForCompaction ctx b) := by
  have hfound := found_pickFilesMarkedForCompaction ctx
    { b with parentIndex := none, baseIndex := none } hb hempty
  unfold pickMarkedForCompaction
  dsimp only
  split_ifs with hne
  · refine Picked.chosen (.inl hfound) hne (fun h => absurd h (by simp)) fun h0 _ _ => ?_
    exact single_pickFilesMarkedForCompaction hempty h0 hne
  · exact hfound.chosen fun _ => not_not.1 hne

/-- The round-robin stage never starts from level 0. -/
lemma chosen_pickRoundRobinTtl (hmode : ctx.iopts.useNewFlush ≠ 0) (hb : b.Undecided)
    (hempty : b.startLevelInputs.files = []) : Chosen ctx (pickRoundRobinTtl ctx b) := by
  unfold pickRoundRobinTtl
  split
  · rename_i level _ _ _ _
    dsimp only
    split_ifs with hpos
    · obtain ⟨hstart, htrue, hfalse⟩ := pickFileToCompact_spec hmode
        { b with startLevel := level, outputLevel := level + 1 } hb (fun h0 => absurd h0 hpos.ne')
      split
      · rename_i b' heq
        rw [heq] at htrue
        obtain ⟨hpicked, hne, -⟩ := htrue rfl
        rw [heq] at hstart
        exact hpicked.chosen hne (fun h => absurd h (by simp))
          fun h0 => absurd (hstart.symm.trans h0) hpos.ne'
      · rename_i b' heq
        rw [heq] at hfalse hstart
        exact (hfalse rfl).chosen fun h0 => absurd (hstart.symm.trans h0) hpos.ne'
    · exact Undecided.chosen_of_empty hb hempty
  · exact hb.chosen_of_empty hempty

/-- The initial files of any compaction in the bucket modes. -/
lemma chosen_setupInitialFiles (hmode : ctx.iopts.useNewFlush ≠ 0) :
    Chosen ctx (setupInitialFiles ctx) := by
  have hmarked := ctx.vstorage.marked_active
  simp only [MarkedFiles.all, List.mem_append] at hmarked
  unfold setupInitialFiles
  dsimp only
  refine Chosen.orElse (Chosen.orElse (Chosen.orElse (Chosen.orElse (Chosen.orElse
    (Chosen.orElse (chosen_pickByScore hmode false _ ⟨rfl, rfl⟩ rfl) ?_) ?_) ?_) ?_) ?_) ?_
  · exact chosen_pickMarkedForCompaction
  · exact fun hb _ => chosen_pickMarked (fun p hp => hmarked p (by tauto)) _ (by simp) rfl hb
  · exact chosen_pickRoundRobinTtl hmode
  · exact fun hb _ => chosen_pickMarked (fun p hp => hmarked p (by tauto)) _ (by simp) rfl hb
  · exact fun hb _ => chosen_pickMarked (fun p hp => hmarked p (by tauto)) _ (by simp) rfl hb
  · exact fun hb _ => chosen_pickMarked (fun p hp => hmarked p (by tauto)) _ (by simp) rfl hb

/-! ### Other inputs -/

omit [Double D] in
/-- The loop adds free files of the level or stops with the inputs it has. -/
lemma roundRobinLoop_spec (start out maxBytes : ℕ) (files : List (FileMetaData K))
    {tmp : CompactionInputFiles K} (hlevel : inputs.level ≠ 0) (htmp : tmp.level = inputs.level)
    (hfiles : ∀ f ∈ files, f ∈ ctx.vstorage.levelFiles inputs.level)
    (hinputs : FromLevel ctx.vstorage inputs ∧ Free inputs) (htmpfrom : FromLevel ctx.vstorage tmp)
    : (roundRobinLoop ctx start out maxBytes inputs tmp files).level = inputs.level ∧
    FromLevel ctx.vstorage (roundRobinLoop ctx start out maxBytes inputs tmp files) ∧
    Free (roundRobinLoop ctx start out maxBytes inputs tmp files) := by
  induction files generalizing inputs tmp with
  | nil => exact ⟨rfl, hinputs⟩
  | cons f rest ih =>
    unfold roundRobinLoop
    split
    · exact ⟨rfl, hinputs⟩
    dsimp only
    have hexplevel := (expandInputsToCleanCut_level ctx.vstorage
      ⟨tmp.level, tmp.files ++ [f]⟩).trans htmp
    have hexpfrom : FromLevel ctx.vstorage (expandInputsToCleanCut ctx.vstorage
        ⟨tmp.level, tmp.files ++ [f]⟩).2 := by
      refine expandInputsToCleanCut_fromLevel fun g hg => ?_
      rcases mem_append.1 hg with hg | hg
      · exact htmpfrom g hg
      · rw [mem_singleton.1 hg]
        change f ∈ ctx.vstorage.levelFiles tmp.level
        rw [htmp]
        exact hfiles f mem_cons_self
    have hexpfree : (expandInputsToCleanCut ctx.vstorage ⟨tmp.level, tmp.files ++ [f]⟩).1 →
        Free (expandInputsToCleanCut ctx.vstorage ⟨tmp.level, tmp.files ++ [f]⟩).2 :=
      expandInputsToCleanCut_free fun h0 => absurd (htmp ▸ h0) hlevel
    generalize expandInputsToCleanCut ctx.vstorage ⟨tmp.level, tmp.files ++ [f]⟩ = expanded
      at hexplevel hexpfrom hexpfree ⊢
    split
    · exact ⟨rfl, hinputs⟩
    rename_i hclean
    have hnew : FromLevel ctx.vstorage ⟨inputs.level, expanded.2.files⟩ ∧
        Free (⟨inputs.level, expanded.2.files⟩ : CompactionInputFiles K) :=
      ⟨fun g hg => hexplevel ▸ hexpfrom g hg, hexpfree (by simpa using (not_or.1 hclean).1)⟩
    generalize (if overlappingOutputFiles ctx out expanded.2 = [] then
        (true, (⟨out, []⟩ : CompactionInputFiles K))
      else expandInputsToCleanCut ctx.vstorage
        ⟨out, overlappingOutputFiles ctx out expanded.2⟩) = output
    split
    · exact ⟨rfl, hinputs⟩
    split
    · exact ⟨rfl, hinputs⟩
    split
    · exact ⟨rfl, hnew⟩
    · exact ih (show (CompactionInputFiles.mk inputs.level expanded.2.files).level ≠ 0 from hlevel)
        hexplevel (fun g hg => hfiles g (mem_cons_of_mem _ hg)) hnew hexpfrom

/-- `b'` is `b` with free files of the start level as inputs. -/
def Refilled (ctx : PickContext K D) (b b' : LevelCompactionBuilder K) : Prop :=
  ∃ inputs : CompactionInputFiles K, b' = { b with startLevelInputs := inputs } ∧
    inputs.level = b.startLevel ∧ FromLevel ctx.vstorage inputs ∧ Free inputs

omit [Double D] in
/-- Extending a trivial move refills the inputs. -/
lemma Refilled.tryExtend (h : Refilled ctx b b) (index : ℕ) (right : Bool) :
    Refilled ctx b (tryExtendNonL0TrivialMove ctx b index right).2 := by
  obtain ⟨inputs, hb, hlevel, hfrom, hfree⟩ := h
  obtain rfl : b.startLevelInputs = inputs := by rw [hb]
  obtain ⟨files, heq, hfiles⟩ := tryExtendNonL0TrivialMove_spec ctx b index right
  refine ⟨⟨b.startLevelInputs.level, files⟩, heq, hlevel, fun f hf => ?_, fun f hf => ?_⟩
  · rcases hfiles f hf with hf | ⟨hf, -⟩
    · exact hfrom f hf
    · change f ∈ ctx.vstorage.levelFiles b.startLevelInputs.level
      rw [hlevel]
      exact hf
  · rcases hfiles f hf with hf | ⟨-, hfree⟩
    · exact hfree f hf
    · exact hfree

omit [Double D] in
/-- So does the loop over the files that follow. -/
lemma Refilled.roundRobinLoop (h : Refilled ctx b b') (hstart : b.startLevel ≠ 0)
    (maxBytes index : ℕ)
    (hinputs : inputs = roundRobinLoop ctx b'.startLevel b'.outputLevel maxBytes
      b'.startLevelInputs b'.startLevelInputs
      ((ctx.vstorage.levelFiles b.startLevel).drop (index + 1))) :
    Refilled ctx b { b' with startLevelInputs := inputs } := by
  obtain ⟨inputs', rfl, hlevel, hfrom, hfree⟩ := h
  obtain ⟨h1, h2, h3⟩ := roundRobinLoop_spec b.startLevel b.outputLevel maxBytes
    ((ctx.vstorage.levelFiles b.startLevel).drop (index + 1))
    (fun h0 => hstart (hlevel.symm.trans h0)) rfl
    (fun f hf => hlevel ▸ mem_of_mem_drop hf) ⟨hfrom, hfree⟩ hfrom
  subst hinputs
  exact ⟨_, rfl, h1.trans hlevel, h2, h3⟩

omit [Double D] in
/-- And so does the expansion as a whole. -/
lemma Refilled.roundRobinExpansion (h : Refilled ctx b b) (hstart : b.startLevel ≠ 0) :
    Refilled ctx b (setupOtherFilesWithRoundRobinExpansion ctx b) := by
  unfold setupOtherFilesWithRoundRobinExpansion
  dsimp only
  split
  · split_ifs
    · exact h.tryExtend _ _
    · exact (h.tryExtend _ _).roundRobinLoop hstart _ _ rfl
    · exact h
    · exact h.roundRobinLoop hstart _ _ rfl
  · exact h

/-- What a picked compaction consists of: the inputs of the start level, then those of the
output level. They are free files of their levels or a trivial move, and their range does
not conflict with a registered compaction. -/
structure PickedCompaction (ctx : PickContext K D) (c : Compaction K) : Prop where
  inputs : ∃ first rest, c.inputs = first :: rest ∧ first.level = c.startLevel ∧
    ∀ i ∈ rest, i.level = c.outputLevel
  fromLevel : ∀ i ∈ c.inputs, FromLevel ctx.vstorage i
  output : c.startLevel = 0 → c.outputLevel = 0 ∨ c.outputLevel = ctx.vstorage.baseLevel
  no_conflict : c.outputLevel ≠ 0 → conflicts ctx c.inputs c.startLevel c.outputLevel = false
  free_or_trivial : (∀ i ∈ c.inputs, Free i) ∨
    c.startLevel = 0 ∧ TrivialMovesEnabled ctx ∧ c.outputLevel = ctx.vstorage.baseLevel ∧
      ∃ files, c.inputs = [⟨0, files⟩] ∧ ∀ f, f ∈ files ↔ f ∈ trivialMoveLoop ctx.vstorage
        ctx.vstorage.baseLevel none (ctx.vstorage.levelFiles 0).reverse
  level0 : c.startLevel = 0 → c.outputLevel ≠ 0 → (∃ files, c.inputs = [⟨0, files⟩] ∧
      ∀ f, f ∈ files ↔ f ∈ trivialMoveLoop ctx.vstorage
        ctx.vstorage.baseLevel none (ctx.vstorage.levelFiles 0).reverse) ∨
    ∃ files rest, c.inputs = ⟨0, files⟩ :: rest ∧ Level0Pick ctx c.reason files

omit [Double D] in
/-- A compaction of free inputs, with or without files of the output level. -/
lemma pickedCompaction_of_free {outputInputs : CompactionInputFiles K}
    (hinputs : FromLevel ctx.vstorage inputs ∧ Free inputs)
    (houtputs : FromLevel ctx.vstorage outputInputs ∧ Free outputInputs)
    (hlevel : outputInputs.level = out)
    (hout : inputs.level = 0 → out = 0 ∨ out = ctx.vstorage.baseLevel)
    (hconflict : out ≠ 0 → conflicts ctx (inputs ::
      if outputInputs.files = [] then [] else [outputInputs]) inputs.level out = false)
    (hlevel0 : inputs.level = 0 → out ≠ 0 → Level0Pick ctx reason inputs.files) :
    PickedCompaction ctx (Compaction.new ctx.mopts ctx.iopts (inputs ::
      if outputInputs.files = [] then [] else [outputInputs]) out reason) := by
  have hall : ∀ i ∈ inputs :: (if outputInputs.files = [] then [] else [outputInputs]),
      i = inputs ∨ i = outputInputs := by
    intro i hi
    rcases mem_cons.1 hi with rfl | hi
    · exact .inl rfl
    · split_ifs at hi
      · exact absurd hi not_mem_nil
      · exact .inr (mem_singleton.1 hi)
  refine ⟨⟨inputs, _, rfl, rfl, fun i hi => ?_⟩, fun i hi => ?_, hout, hconflict,
    .inl fun i hi => ?_, fun h0 hne => .inr ?_⟩
  · split_ifs at hi
    · exact absurd hi not_mem_nil
    · rw [mem_singleton.1 hi]
      exact hlevel
  · rcases hall i hi with rfl | rfl
    · exact hinputs.1
    · exact houtputs.1
  · rcases hall i hi with rfl | rfl
    · exact hinputs.2
    · exact houtputs.2
  · have hfirst : inputs = ⟨0, inputs.files⟩ := 
      congrArg (CompactionInputFiles.mk · inputs.files) (show inputs.level = 0 from h0)
    exact ⟨inputs.files, if outputInputs.files = [] then [] else [outputInputs],
      congrArg (· :: _) hfirst, hlevel0 h0 hne⟩

/-- What the initial files become when the other inputs have been set up. -/
lemma pickedCompaction_of_setupOtherInputsIfNeeded (hmode : ctx.iopts.useNewFlush ≠ 0)
    (hchosen : Chosen ctx b) (hne : b.startLevelInputs.files ≠ [])
    (h : setupOtherInputsIfNeeded ctx b = (true, b')) :
    PickedCompaction ctx (Compaction.new ctx.mopts ctx.iopts b'.compactionInputs
      b'.outputLevel b'.compactionReason) := by
  have hlevel := hchosen.level hne
  have hfrom : FromLevel ctx.vstorage b.startLevelInputs := fun f hf =>
    hlevel ▸ hchosen.mem f hf
  have hnone : ∀ {l : ℕ}, FromLevel ctx.vstorage ⟨l, []⟩ ∧
      Free (⟨l, []⟩ : CompactionInputFiles K) :=
    ⟨fun f hf => absurd hf not_mem_nil, fun f hf => absurd hf not_mem_nil⟩
  unfold setupOtherInputsIfNeeded at h
  by_cases hout : b.outputLevel ≠ 0
  · rw [if_pos hout] at h
    dsimp only at h
    rcases hchosen.free_or_trivial with ⟨hplain, hfree⟩ | ⟨htrue, htriv⟩
    · have hrefill : Refilled ctx b (if ctx.iopts.compactionPri = .roundRobin ∧
          b.compactionReason = .levelMaxLevelSize then
          setupOtherFilesWithRoundRobinExpansion ctx b else b) := by
        have hself : Refilled ctx b b := ⟨b.startLevelInputs, rfl, hlevel, hfrom, hfree⟩
        split_ifs with hrr
        · exact hself.roundRobinExpansion (hchosen.reason hrr.2)
        · exact hself
      -- the round-robin expansion is only for levels above level 0
      have hkeep : b.startLevel = 0 → (if ctx.iopts.compactionPri = .roundRobin ∧
          b.compactionReason = .levelMaxLevelSize then
          setupOtherFilesWithRoundRobinExpansion ctx b else b) = b := fun h0 =>
        if_neg fun hrr => hchosen.reason hrr.2 h0
      generalize (if ctx.iopts.compactionPri = .roundRobin ∧
          b.compactionReason = .levelMaxLevelSize then
          setupOtherFilesWithRoundRobinExpansion ctx b else b) = b₁ at h hrefill hkeep
      obtain ⟨inputs, rfl, hlevel', hfrom', hfree'⟩ := hrefill
      simp only [hplain, Bool.not_false, if_true] at h
      generalize decide (ctx.iopts.compactionPri = .roundRobin ∧
        b.compactionReason = .levelMaxLevelSize) = right at h
      rcases hset : setupOtherInputs ctx.vstorage ctx.mopts ctx.iopts inputs b.outputLevel
        b.parentIndex b.baseIndex right with ⟨goes, first, output⟩
      rw [hset] at h
      obtain ⟨hok, rfl⟩ := Prod.mk.inj h
      obtain ⟨hgoes, hconflict⟩ := Bool.and_eq_true_iff.1 hok
      have hother := setupOtherInputs_spec (congrArg Prod.fst hset |>.trans hgoes)
      rw [hset] at hother
      have hstart : first.level = b.startLevel ∧ FromLevel ctx.vstorage first ∧ Free first := by
        rcases hother.start with heq | ⟨hlvl, hres⟩
        · exact (show first = inputs from heq) ▸ ⟨hlevel', hfrom', hfree'⟩
        · exact ⟨hlvl.trans hlevel', hres⟩
      refine pickedCompaction_of_free hstart.2 hother.output hother.output_level
        (fun h0 => hchosen.output (hstart.1 ▸ h0) hne) (fun _ => ?_) (fun h0 _ => ?_)
      · rw [hstart.1]
        simpa using hconflict
      · have h0' : b.startLevel = 0 := hstart.1.symm.trans h0
        have hfirst : first = inputs := hother.bucket (hlevel'.trans h0') hmode
        have hinputs : inputs = b.startLevelInputs :=
          congrArg LevelCompactionBuilder.startLevelInputs (hkeep h0')
        rw [hfirst, hinputs]
        exact hchosen.level0 h0' hout hplain hne
    · have hrr : ¬ (ctx.iopts.compactionPri = .roundRobin ∧
          b.compactionReason = .levelMaxLevelSize) := fun hrr =>
        hchosen.reason hrr.2 htriv.startLevel
      simp only [if_neg hrr, htrue, Bool.not_true, Bool.false_eq_true, if_false] at h
      obtain ⟨hok, rfl⟩ := Prod.mk.inj h
      have hinputs : b.startLevelInputs = ⟨0, b.startLevelInputs.files⟩ := by
        rw [← htriv.level]
      refine ⟨⟨_, _, rfl, rfl, fun i hi => absurd hi not_mem_nil⟩, fun i hi => ?_,
        fun _ => .inr htriv.outputLevel, fun _ => ?_,
        .inr ⟨htriv.level, htriv.enabled, htriv.outputLevel, b.startLevelInputs.files,
          ?_, htriv.mem_iff⟩, fun _ _ => .inl ⟨b.startLevelInputs.files, ?_, htriv.mem_iff⟩⟩
      · rw [mem_singleton.1 hi]
        exact hfrom
      · change conflicts ctx [b.startLevelInputs] b.startLevelInputs.level b.outputLevel = false
        rw [hlevel]
        simpa using hok
      · exact congrArg (fun i => [i]) hinputs
      · exact congrArg (fun i => [i]) hinputs
  · rw [if_neg hout] at h
    obtain ⟨-, rfl⟩ := Prod.mk.inj h
    rcases hchosen.free_or_trivial with ⟨-, hfree⟩ | ⟨-, htriv⟩
    · exact pickedCompaction_of_free ⟨hfrom, hfree⟩ (hnone (l := b.outputLevel))
        rfl (fun h0 => hchosen.output (hlevel ▸ h0) hne) (fun h => absurd h hout)
        (fun _ h => absurd h hout)
    · exact absurd (htriv.outputLevel ▸ htriv.enabled.1) hout

/-- Everything `PickCompaction` returns in the bucket modes is a picked compaction. -/
lemma pickedCompaction (hmode : ctx.iopts.useNewFlush ≠ 0) {c : Compaction K}
    (h : (pickCompaction ctx).1 = some c) : PickedCompaction ctx c := by
  have hchosen := chosen_setupInitialFiles hmode
  unfold pickCompaction at h
  generalize setupInitialFiles ctx = b at hchosen h
  dsimp only at h
  split_ifs at h with hempty
  have hL0 : setupOtherL0FilesIfNeeded ctx b = (true, b) := by
    unfold setupOtherL0FilesIfNeeded
    split_ifs <;> rfl
  rw [hL0] at h
  dsimp only at h
  rcases hother : setupOtherInputsIfNeeded ctx b with ⟨_ | _, b'⟩
  · rw [hother] at h
    exact absurd h (by simp)
  · rw [hother] at h
    obtain rfl := Option.some.inj h
    exact pickedCompaction_of_setupOtherInputsIfNeeded hmode hchosen hempty hother

end LevelCompactionBuilder

end BucketLSM
