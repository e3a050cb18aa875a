import BucketLSM.Flush.FlushJob

/-!
# What a bucket flush owes

A flush job takes a reference on the current version and gives it back when it is done; it reports
success only when its tables are on disk; and its edit names every blob file its tables refer to.
The plain flush does all of this. The bucket flush leaves each of the three out on some path, and
the theorems below say on which. A flush that stops the process does none of it.
-/

namespace BucketLSM

open List

namespace FlushJobState

variable {β : Type} {input : FlushInput β} {job job' : FlushJobState β}

/-! ## The plain flush -/

lemma baseRefs_writeLevel0Table (input : FlushInput β) (job : FlushJobState β) :
    (job.writeLevel0Table input).2.baseRefs = job.baseRefs - 1 := by
  unfold writeLevel0Table unrefBase
  dsimp only
  split_ifs <;> rfl

lemma status_of_level0Status (h : level0Status input = .ok) : input.build.status = .ok := by
  unfold level0Status at h
  by_contra hbuild
  simp [hbuild] at h

lemma edit_writeLevel0Table (input : FlushInput β) (job : FlushJobState β) :
    (job.writeLevel0Table input).2.edit =
      if level0Status input = .ok ∧ 0 < input.build.table.fileSize then
        { newFiles := job.edit.newFiles ++ [⟨job.number, job.epochNumber, input.build.table⟩]
          blobFileAdditions := input.build.blobFileAdditions }
      else job.edit := by
  unfold writeLevel0Table unrefBase
  dsimp only
  split_ifs <;> rfl

lemma synced_writeLevel0Table (h : input.build.status = .ok ∧ 0 < input.build.table.fileSize) :
    (job.writeLevel0Table input).2.synced = job.synced ++ [job.number] := by
  unfold writeLevel0Table unrefBase
  dsimp only
  rw [if_pos h]
  split_ifs <;> rfl

/-! ## When the bucket flush falls back -/

lemma initializedManager_eq_false_iff : (job.initializedManager input).initialized = false ↔
    input.l0Empty = false ∧ job.manager.initialized = false := by
  unfold initializedManager BucketManager.initializeFromFirstFlush
  cases hl0 : input.l0Empty <;> cases hinit : job.manager.initialized <;> simp [hinit]

/-- The bucket flush hands over to the plain flush: the buckets cannot be initialised because
level 0 is not empty, or no bucket has entries. -/
def FallsBack (input : FlushInput β) (job : FlushJobState β) : Prop :=
  (input.l0Empty = false ∧ job.manager.initialized = false) ∨
    (DirectorySynced input ∧ job.flushedBuckets input = [])

/-- The edit a bucket flush ends with, unless it stops the process. -/
def bucketEdit (input : FlushInput β) (job : FlushJobState β) : Option (FlushEdit β) :=
  (job.writeBucketLevel0Table input).map (·.2.edit)

lemma edit_of_sameJob (h : SameJob job job') :
    (job'.writeLevel0Table input).2.edit = (job.writeLevel0Table input).2.edit := by
  rw [edit_writeLevel0Table, edit_writeLevel0Table, h.edit_eq, h.number_eq, h.epochNumber_eq]

/-- The exits again, by what they do to the edit. -/
lemma bucketEdit_of_fallsBack (input : FlushInput β) (h : job.FallsBack input)
    (hlives : ¬ job.Dies input) :
    job.bucketEdit input = some (job.writeLevel0Table input).2.edit := by
  have hexit := bucketExit input job
  unfold bucketEdit
  generalize job.writeBucketLevel0Table input = r at hexit
  cases hexit with
  | uninitialized hinit hsame => exact congrArg some (edit_of_sameJob hsame)
  | died hinit hdies => exact absurd hdies hlives
  | failed hinit _ hfailed hs hsame =>
    rcases h with huninit | ⟨hdir, hnone⟩
    · rw [initializedManager_eq_false_iff.2 huninit] at hinit
      cases hinit
    · exact absurd ⟨by simp [AllBuilt, hnone], hdir⟩ hfailed
  | nothing hinit _ hdir hnone hsame => exact congrArg some (edit_of_sameJob hsame)
  | written hinit _ hall hdir hsome =>
    rcases h with huninit | ⟨-, hnone⟩
    · rw [initializedManager_eq_false_iff.2 huninit] at hinit
      cases hinit
    · exact absurd hnone hsome

section Initialized

variable (hinit : ¬ (input.l0Empty = false ∧ job.manager.initialized = false))

include hinit

lemma bucketEdit_of_dies (hdies : job.Dies input) : job.bucketEdit input = none := by
  have hexit := bucketExit input job
  unfold bucketEdit
  generalize job.writeBucketLevel0Table input = r at hexit
  cases hexit with
  | uninitialized huninit => exact absurd (initializedManager_eq_false_iff.1 huninit) hinit
  | died => rfl
  | failed _ hlives | nothing _ hlives | written _ hlives => exact absurd hdies hlives

lemma bucketEdit_of_failed (hlives : ¬ job.Dies input)
    (hfailed : ¬ (AllBuilt input (job.flushedBuckets input) ∧ DirectorySynced input)) :
    job.bucketEdit input = some job.edit := by
  have hexit := bucketExit input job
  unfold bucketEdit
  generalize job.writeBucketLevel0Table input = r at hexit
  cases hexit with
  | uninitialized huninit => exact absurd (initializedManager_eq_false_iff.1 huninit) hinit
  | died _ hdies => exact absurd hdies hlives
  | failed _ _ _ _ hsame => exact congrArg some hsame.edit_eq
  | nothing _ _ hdir hnone => exact absurd ⟨by simp [AllBuilt, hnone], hdir⟩ hfailed
  | written _ _ hall hdir => exact absurd ⟨hall, hdir⟩ hfailed

lemma bucketEdit_of_written (hlives : ¬ job.Dies input)
    (hall : AllBuilt input (job.flushedBuckets input)) (hdir : DirectorySynced input)
    (hsome : job.flushedBuckets input ≠ []) : job.bucketEdit input = some
      { newFiles := job.edit.newFiles ++ job.bucketFiles input
        blobFileAdditions := job.edit.blobFileAdditions ++
          if TakesParallelPath input (job.initializedManager input).getSnapshot then [] else
            (job.flushedBuckets input).flatMap fun i =>
              (input.buildBucket i).blobFileAdditions } := by
  have hexit := bucketExit input job
  unfold bucketEdit
  generalize job.writeBucketLevel0Table input = r at hexit
  cases hexit with
  | uninitialized huninit => exact absurd (initializedManager_eq_false_iff.1 huninit) hinit
  | died _ hdies => exact absurd hdies hlives
  | failed _ _ hfailed => exact absurd ⟨hall, hdir⟩ hfailed
  | nothing _ _ _ hnone => exact absurd hnone hsome
  | @written job' _ _ _ _ _ _ _ hnew hblob =>
    change some job'.edit = _
    rw [← hnew, ← hblob]

end Initialized

/-! ## The reference on the version -/

lemma baseRefs_writeBucketLevel0Table (input : FlushInput β) (job : FlushJobState β) :
    (job.writeBucketLevel0Table input).map (·.2.baseRefs) = some (job.baseRefs - 1) ↔
      job.FallsBack input := by
  have hexit := bucketExit input job
  have hneed : (job.initializedManager input).initialized = true →
      job.FallsBack input → DirectorySynced input ∧ job.flushedBuckets input = [] := by
    rintro hinit (huninit | hnone)
    · rw [initializedManager_eq_false_iff.2 huninit] at hinit
      cases hinit
    · exact hnone
  generalize job.writeBucketLevel0Table input = r at hexit
  cases hexit with
  | uninitialized hinit hsame =>
    refine iff_of_true ?_ (.inl (initializedManager_eq_false_iff.1 hinit))
    rw [Option.map_some, baseRefs_writeLevel0Table, hsame.baseRefs_eq]
  | died hinit hdies =>
    refine iff_of_false (by simp) fun hback => ?_
    -- a flush without buckets does not die
    have hnone := (hneed hinit hback).2
    rw [flushedBuckets] at hnone
    simp [Dies, BucketsDie, TakesParallelPath, SequentialDies, hnone] at hdies
  | failed hinit _ hfailed hs hsame =>
    refine iff_of_false ?_ fun hback => ?_
    · rw [Option.map_some, hsame.baseRefs_eq, Option.some_inj]
      omega
    · obtain ⟨hdir, hnone⟩ := hneed hinit hback
      exact hfailed ⟨by simp [AllBuilt, hnone], hdir⟩
  | nothing hinit _ hdir hnone hsame =>
    refine iff_of_true ?_ (.inr ⟨hdir, hnone⟩)
    rw [Option.map_some, baseRefs_writeLevel0Table, hsame.baseRefs_eq]
  | written hinit _ hall hdir hsome hbase =>
    refine iff_of_false ?_ fun hback => hsome (hneed hinit hback).2
    rw [Option.map_some, hbase, Option.some_inj]
    omega

/-- How a job with memtables ends. -/
inductive Ending (β : Type)
  | cancel
  | run (input : RunInput β)

/-- The job after `PickMemTable` and its end. -/
def Ending.apply (job : FlushJobState β) : Ending β → Option (FlushJobState β)
  | .cancel => some job.pickMemTable.cancel
  | .run input => (job.pickMemTable.run input).map Prod.snd

/-- The outcomes that give the reference on `base_` back: `Cancel`, a successful mempurge, a plain
flush, and a bucket flush that falls back to one. -/
def Ending.Releases (job : FlushJobState β) : Ending β → Prop
  | .cancel => True
  | .run input => input.memPurge = some .ok ∨ input.useNewFlush ≠ 1 ∨
      job.pickMemTable.FallsBack input.toFlushInput

/-- A job of a column family with an initialised manager of two buckets, `(-∞, "b")` and
`["b", +∞)`. -/
def twoBucketJob : FlushJobState Unit where
  baseRefs := 1
  edit := ⟨[], []⟩
  synced := []
  nextFileNumber := 10
  nextEpochNumber := 1
  number := 0
  epochNumber := 0
  manager := (BucketManager.new 2 none).initializeFromFirstFlush [[98]]

/-- `BuildTable` writes a table of 100 bytes and, if asked for, a blob file. -/
def builtOutcome (smallest : Slice) (blobFile : Option ℕ) : BuildOutcome Unit where
  created := true
  status := .ok
  table := ⟨(), blobFile.toList, smallest, 100⟩
  blobFileAdditions := blobFile.toList
  created_of_ok _ := rfl
  references_subset _ := List.Subset.refl _

/-- A flush of the keys `"a"` and `"c"` without assertions, where every call succeeds but possibly
the reopening of the files in the batch sync. -/
def twoKeyInput (parallel reopens : Bool) (blobFile : ℕ → Option ℕ) : FlushInput Unit where
  asserts := false
  build := builtOutcome [97] none
  inputRecordsMatch := true
  outputRecordsMatch := true
  flushVerifyMemtableCount := true
  syncsDirectory := true
  directoryStatus := .ok
  l0Empty := true
  initialSplitCount := 2
  totalNumInputEntries := 2
  keys := [[97], [99]]
  parallelSplitFlush := parallel
  schedule := []
  buildBucket i := builtOutcome [97 + 2 * Fin.ofNat 256 i] (blobFile i)
  concurrently := id
  reopens _ := reopens
  syncs _ := true
  bucketDirectoryStatus := .ok

/-- A flush that returns OK has synced every table it has added to its edit. -/
def Durable (r : Option (Status × FlushJobState β)) : Prop :=
  ∀ job, r = some (.ok, job) → ∀ file ∈ job.edit.newFiles, file.number ∈ job.synced

/-- The plain flush is durable, because `BuildTable` syncs the table itself. -/
lemma durable_writeLevel0Table (hedit : job.edit.newFiles = []) :
    Durable (some (job.writeLevel0Table input)) := by
  intro job' hjob' file hfile
  obtain rfl : (job.writeLevel0Table input).2 = job' := congrArg Prod.snd (Option.some.inj hjob')
  rw [edit_writeLevel0Table] at hfile
  split_ifs at hfile with hok
  · rw [synced_writeLevel0Table ⟨status_of_level0Status hok.1, hok.2⟩]
    rw [hedit, nil_append, mem_singleton] at hfile
    rw [hfile]
    exact mem_append_right _ mem_cons_self
  · rw [hedit] at hfile
    cases hfile

/-- Every file of the buckets can be reopened and synced in the batch. -/
def BatchSynced (input : FlushInput β) (job : FlushJobState β) : Prop :=
  ∀ file ∈ job.bucketFiles input, input.reopens file.number = true ∧ input.syncs file.number = true

/-- The two edits add the same tables, apart from their numbers, and the same blob files. -/
def AddsSame (edit edit' : FlushEdit β) : Prop :=
  edit.newFiles.map (·.table) = edit'.newFiles.map (·.table) ∧
    ∀ blobFile, blobFile ∈ edit.blobFileAdditions ↔ blobFile ∈ edit'.blobFileAdditions

/-- Every blob file a new table refers to is added by the same edit. -/
def BlobsAdded (edit : FlushEdit β) : Prop :=
  ∀ file ∈ edit.newFiles, file.table.blobReferences ⊆ edit.blobFileAdditions

/-- The flush with `parallel_split_flush` set to the value given. -/
def withParallel (parallel : Bool) (input : FlushInput β) : FlushInput β :=
  { input with parallelSplitFlush := parallel }

/-- Both paths of the bucket flush come to an end and add the same to the edit, and with it every
blob file the tables refer to. -/
def PathsAgree (input : FlushInput β) (job : FlushJobState β) : Prop :=
  ∃ parallel sequential, job.bucketEdit (withParallel true input) = some parallel ∧
    job.bucketEdit (withParallel false input) = some sequential ∧
    AddsSame parallel sequential ∧ BlobsAdded parallel ∧ BlobsAdded sequential

lemma pathsAgree_iff {parallel sequential : FlushEdit β}
    (hparallel : job.bucketEdit (withParallel true input) = some parallel)
    (hsequential : job.bucketEdit (withParallel false input) = some sequential) :
    job.PathsAgree input ↔
      AddsSame parallel sequential ∧ BlobsAdded parallel ∧ BlobsAdded sequential := by
  constructor
  · rintro ⟨p, q, hp, hq, h⟩
    cases hparallel.symm.trans hp
    cases hsequential.symm.trans hq
    exact h
  · intro h
    exact ⟨_, _, hparallel, hsequential, h⟩

/-- Neither path stops the process. -/
def BothLive (input : FlushInput β) (job : FlushJobState β) : Prop :=
  ¬ SequentialDies input (job.flushedBuckets input) ∧
    (1 < (job.flushedBuckets input).length → ¬ ParallelDies input (job.flushedBuckets input))

lemma dies_withParallel_iff (parallel : Bool) : job.Dies (withParallel parallel input) ↔
      if parallel = true ∧ 1 < (job.flushedBuckets input).length
        then ParallelDies input (job.flushedBuckets input)
        else SequentialDies input (job.flushedBuckets input) := by
  unfold Dies BucketsDie
  by_cases hpath : parallel = true ∧ 1 < (job.flushedBuckets input).length
  · rw [if_pos hpath]
    exact iff_of_eq (if_pos hpath)
  · rw [if_neg hpath]
    exact iff_of_eq (if_neg hpath)

lemma BothLive.not_dies (h : job.BothLive input) (parallel : Bool) :
    ¬ job.Dies (withParallel parallel input) := by
  rw [dies_withParallel_iff]
  split_ifs with hpath
  · exact h.2 hpath.2
  · exact h.1

lemma blobsAdded_writeLevel0Table (input : FlushInput β) (hedit : job.edit.newFiles = []) :
    BlobsAdded (job.writeLevel0Table input).2.edit := by
  intro file hfile
  rw [edit_writeLevel0Table] at hfile ⊢
  split_ifs at hfile ⊢ with hok
  · rw [hedit, nil_append, mem_singleton] at hfile
    rw [hfile]
    exact input.build.references_subset (status_of_level0Status hok.1)
  · rw [hedit] at hfile
    cases hfile

lemma mem_builtFiles {buildBucket : ℕ → BuildOutcome β} {number epochNumber : ℕ} {buckets : List ℕ} {file : Level0File β}
    (h : file ∈ builtFiles buildBucket number epochNumber buckets) :
    ∃ i ∈ buckets, file.table = (buildBucket i).table := by
  induction buckets generalizing number epochNumber with
  | nil => cases h
  | cons i buckets ih =>
    rcases mem_cons.1 h with rfl | h
    · exact ⟨i, mem_cons_self, rfl⟩
    · obtain ⟨k, hk, htable⟩ := ih h
      exact ⟨k, mem_cons_of_mem i hk, htable⟩

section Paths

variable {input : FlushInput β} {picked : FlushJobState β}

/-- Both paths agree where both flush as the plain one does. -/
lemma pathsAgree_of_plain (hedit : picked.edit = ⟨[], []⟩)
    (hpath : ∀ parallel, picked.bucketEdit (withParallel parallel input) =
      some (picked.writeLevel0Table input).2.edit) : picked.PathsAgree input := by
  have hblobs := blobsAdded_writeLevel0Table input (by rw [hedit] : picked.edit.newFiles = [])
  exact (pathsAgree_iff (hpath true) (hpath false)).2 ⟨⟨rfl, fun _ => Iff.rfl⟩, hblobs, hblobs⟩

/-- Without buckets the flush is the plain one. -/
lemma bucketEdit_of_uninitialized
    (huninit : input.l0Empty = false ∧ picked.manager.initialized = false) (parallel : Bool) :
    picked.bucketEdit (withParallel parallel input) =
      some (picked.writeLevel0Table input).2.edit := by
  have hexit := bucketExit (withParallel parallel input) picked
  unfold bucketEdit
  generalize picked.writeBucketLevel0Table (withParallel parallel input) = r at hexit
  have hfalse : (picked.initializedManager (withParallel parallel input)).initialized = false :=
    initializedManager_eq_false_iff.2 huninit
  cases hexit with
  | uninitialized _ hsame => exact congrArg some (edit_of_sameJob hsame)
  | died hinit | failed hinit | nothing hinit | written hinit =>
    rw [hfalse] at hinit
    cases hinit

variable (huninit : ¬ (input.l0Empty = false ∧ picked.manager.initialized = false))

include huninit

/-- Paths that agree have results. -/
lemma PathsAgree.bothLive (h : picked.PathsAgree input) : picked.BothLive input := by
  obtain ⟨p, q, hp, hq, -⟩ := h
  refine ⟨fun hdies => ?_, fun hlength hdies => ?_⟩
  · have hnone : picked.bucketEdit (withParallel false input) = none := bucketEdit_of_dies huninit
      ((dies_withParallel_iff false).2 (by simpa using hdies))
    rw [hnone] at hq
    cases hq
  · have hnone : picked.bucketEdit (withParallel true input) = none := bucketEdit_of_dies huninit
      ((dies_withParallel_iff true).2 (by simpa [hlength] using hdies))
    rw [hnone] at hp
    cases hp

/-- Where all buckets are built, the parallel path loses the blob files of several buckets. -/
lemma pathsAgree_of_written_iff (hedit : picked.edit = ⟨[], []⟩) (hlive : picked.BothLive input)
    (hok : AllBuilt input (picked.flushedBuckets input) ∧ DirectorySynced input)
    (hsome : picked.flushedBuckets input ≠ []) :
    picked.PathsAgree input ↔ (picked.flushedBuckets input).length ≤ 1 ∨
      ∀ i ∈ picked.flushedBuckets input, (input.buildBucket i).blobFileAdditions = [] := by
  have hpath : ∀ parallel, picked.bucketEdit (withParallel parallel input) = some
        { newFiles := picked.edit.newFiles ++ picked.bucketFiles input
          blobFileAdditions := picked.edit.blobFileAdditions ++
            if parallel = true ∧ 1 < (picked.flushedBuckets input).length then [] else
              (picked.flushedBuckets input).flatMap fun i =>
                (input.buildBucket i).blobFileAdditions } := fun parallel =>
    show picked.bucketEdit (withParallel parallel input) = some _ from
      bucketEdit_of_written huninit (hlive.not_dies parallel) hok.1 hok.2 hsome
  have hreferences : ∀ file ∈ picked.bucketFiles input, file.table.blobReferences ⊆
      (picked.flushedBuckets input).flatMap fun i => (input.buildBucket i).blobFileAdditions := by
    intro file hfile blobFile hblob
    obtain ⟨i, hi, htable⟩ := mem_builtFiles hfile
    rw [htable] at hblob
    exact mem_flatMap.2 ⟨i, hi, (input.buildBucket i).references_subset (hok.1 i hi) hblob⟩
  rw [pathsAgree_iff (hpath true) (hpath false), hedit]
  simp only [nil_append, true_and, Bool.false_eq_true, false_and, if_false]
  by_cases hone : (picked.flushedBuckets input).length ≤ 1
  · rw [if_neg (not_lt.2 hone)]
    exact iff_of_true ⟨⟨rfl, fun _ => Iff.rfl⟩, hreferences, hreferences⟩ (.inl hone)
  · rw [if_pos (not_le.1 hone), or_iff_right hone]
    constructor
    · intro h i hi
      refine eq_nil_iff_forall_not_mem.2 fun blobFile hblob => ?_
      exact not_mem_nil ((h.1.2 blobFile).2 (mem_flatMap.2 ⟨i, hi, hblob⟩))
    · intro h
      have hnone : ((picked.flushedBuckets input).flatMap fun i =>
          (input.buildBucket i).blobFileAdditions) = [] := flatMap_eq_nil_iff.2 h
      rw [hnone] at hreferences ⊢
      exact ⟨⟨rfl, fun _ => Iff.rfl⟩, hreferences, hreferences⟩

end Paths

end FlushJobState

end BucketLSM
