import BucketLSM.Bucket.Manager
import BucketLSM.Format
import Mathlib

/-!
# Flush jobs

`FlushJob` (`db/flush_job.cc`) writes the picked memtables of a column family to level 0. The
plain flush writes one table. The bucket flush writes one table for each bucket that has entries,
one after the other or on a thread for each bucket, with the sync of the tables put off to the
end, and falls back to the plain flush when it has written nothing.

What `BuildTable` makes of a bucket is an input here (its contents are of any type `β`), and so
are the answers of the file system and the order in which the threads run. What the manager of the
buckets and the lists of pending files need of a flush is modelled where they are.

A flush that stops the process has no result. Both paths do so at a bucket that is built to an
empty table, whose `smallest` is unset when its user key is taken for the log.
-/

namespace BucketLSM

open List

/-- What `BuildTable` leaves in a `FileMetaData`: the contents of the table and the numbers of the
blob files it refers to, the user key of `smallest`, and the size, zero if nothing was written. -/
structure BuiltTable (β : Type) where
  contents : β
  blobReferences : List ℕ
  smallest : Slice
  fileSize : ℕ

/-- The outcome of a call of `BuildTable`: whether the file of the table could be created, the
status, the table and the blob files it has added to `blob_file_additions`. A table refers to blob
files of the same call only. -/
structure BuildOutcome (β : Type) where
  created : Bool
  status : Status
  table : BuiltTable β
  blobFileAdditions : List ℕ
  created_of_ok : status = .ok → created = true
  references_subset : status = .ok → table.blobReferences ⊆ blobFileAdditions

/-- A table with the numbers it was given. -/
structure Level0File (β : Type) where
  number : ℕ
  epochNumber : ℕ
  table : BuiltTable β

/-- What a flush job writes into its `VersionEdit`. -/
structure FlushEdit (β : Type) where
  newFiles : List (Level0File β)
  blobFileAdditions : List ℕ

/-- The state a flush job works on: the references on `base_`, its edit, the tables it has synced,
the counters of the version set and the column family, the numbers in `meta_`, and the bucket
manager. -/
structure FlushJobState (β : Type) where
  baseRefs : ℤ
  edit : FlushEdit β
  synced : List ℕ
  nextFileNumber : ℕ
  nextEpochNumber : ℕ
  number : ℕ
  epochNumber : ℕ
  manager : BucketManager

/-- The inputs of a flush: the outcomes of `BuildTable` for all memtables and for each bucket, the
checks of the plain flush, the user keys of the merged memtables, and the answers of the file
system. `concurrently` is what others do to the bucket manager during the flush, `schedule` the
order in which the threads of the parallel path take their steps, and `asserts` tells whether the
program was compiled with assertions. -/
structure FlushInput (β : Type) where
  asserts : Bool
  build : BuildOutcome β
  inputRecordsMatch : Bool
  outputRecordsMatch : Bool
  flushVerifyMemtableCount : Bool
  syncsDirectory : Bool
  directoryStatus : Status
  l0Empty : Bool
  initialSplitCount : ℤ
  totalNumInputEntries : ℕ
  keys : List Slice
  parallelSplitFlush : Bool
  schedule : List ℕ
  buildBucket : ℕ → BuildOutcome β
  concurrently : BucketManager → BucketManager
  reopens : ℕ → Bool
  syncs : ℕ → Bool
  bucketDirectoryStatus : Status

namespace FlushJobState

variable {β : Type} (job : FlushJobState β)

/-- `Version::Unref` on `base_`. -/
def unrefBase : FlushJobState β := { job with baseRefs := job.baseRefs - 1 }

/-! ## The plain flush -/

/-- The status `WriteLevel0Table` ends with. -/
def level0Status (input : FlushInput β) : Status :=
  let s := input.build.status
  let s := if s = .ok ∧ !input.inputRecordsMatch ∧ input.flushVerifyMemtableCount
    then .corruption else s
  let s := if s = .ok ∧ !input.outputRecordsMatch ∧ input.flushVerifyMemtableCount
    then .corruption else s
  if s = .ok ∧ input.syncsDirectory then input.directoryStatus else s

/-- `FlushJob::WriteLevel0Table`. `BuildTable` syncs the table before it returns OK. -/
def writeLevel0Table (input : FlushInput β) (job : FlushJobState β) : Status × FlushJobState β :=
  let s := level0Status input
  let job := if input.build.status = .ok ∧ 0 < input.build.table.fileSize
    then { job with synced := job.synced ++ [job.number] } else job
  let job := job.unrefBase
  if s = .ok ∧ 0 < input.build.table.fileSize then
    (s, { job with edit :=
      { newFiles := job.edit.newFiles ++ [⟨job.number, job.epochNumber, input.build.table⟩]
        blobFileAdditions := input.build.blobFileAdditions } })
  else (s, job)

/-! ## The buckets of a flush -/

/-- The manager after the first flush has initialised it, if this is the one. -/
def initializedManager (input : FlushInput β) (job : FlushJobState β) : BucketManager :=
  if input.l0Empty ∧ !job.manager.initialized then
    job.manager.initializeFromFirstFlush
      (firstFlushSplitPoints input.totalNumInputEntries input.initialSplitCount input.keys)
  else job.manager

/-- `bucket_keys`: the user keys of each bucket of the snapshot, in the order of the memtables. -/
def bucketKeys (snapshot : BucketSnapshot) (keys : List Slice) : List (List Slice) :=
  keys.foldl (fun buckets key =>
    let i := findBucketInSnapshot snapshot key
    if 0 ≤ i ∧ i < snapshot.ranges.length then buckets.modify i.toNat (· ++ [key]) else buckets)
    (List.replicate snapshot.ranges.length [])

/-- The indices of the buckets that have entries. -/
def nonEmptyBuckets (snapshot : BucketSnapshot) (keys : List Slice) : List ℕ :=
  (List.range snapshot.ranges.length).filter fun i => (bucketKeys snapshot keys).getD i [] ≠ []

/-- What the two paths collect: the status, `bucket_metas`, `blob_file_additions`,
`files_to_sync` and `bucket_file_counts`, with the counters the numbers come from. -/
structure Built (β : Type) where
  status : Status
  metas : List (Level0File β)
  blobFileAdditions : List ℕ
  filesToSync : List ℕ
  fileCounts : List ℕ
  nextFileNumber : ℕ
  nextEpochNumber : ℕ

/-- Before the first bucket. -/
def Built.start (buckets : ℕ) (job : FlushJobState β) : Built β :=
  ⟨.ok, [], [], [], List.replicate buckets 0, job.nextFileNumber, job.nextEpochNumber⟩

/-- The sequential path: the loop over the buckets that have entries. -/
def buildSequential (input : FlushInput β) : List ℕ → Built β → Option (Built β)
  | [], built => some built
  | i :: buckets, built =>
    let outcome := input.buildBucket i
    -- the `BlobFileBuilder` of a bucket asserts that it finds no blob file of an earlier one
    if input.asserts ∧ outcome.created ∧ built.blobFileAdditions ≠ [] then none
    else
      let file : Level0File β := ⟨built.nextFileNumber, built.nextEpochNumber, outcome.table⟩
      let built := { built with
        status := outcome.status
        blobFileAdditions := built.blobFileAdditions ++ outcome.blobFileAdditions
        filesToSync := if outcome.status = .ok ∧ 0 < outcome.table.fileSize
          then built.filesToSync ++ [file.number] else built.filesToSync
        nextFileNumber := built.nextFileNumber + 1
        nextEpochNumber := built.nextEpochNumber + 1 }
      if outcome.status ≠ .ok then some built
      -- `smallest.user_key()` is taken before the size is looked at
      else if outcome.table.fileSize = 0 then none
      else buildSequential input buckets { built with
        metas := built.metas ++ [file]
        fileCounts := built.fileCounts.modify i (· + 1) }

/-! ### Threads -/

/-- A thread of the parallel path: before it reads `has_error`, within `BuildTable`, and after
it. -/
inductive ThreadState
  | idle
  | building
  | done (status : Status)
deriving DecidableEq, Repr

/-- The status in the context of a thread, OK until it is set. -/
def ThreadState.status : ThreadState → Status
  | .done status => status
  | _ => .ok

/-- `build_bucket` takes a step in the thread of one context: it reads `has_error`, or it comes
back from `BuildTable` with the status of its bucket and sets `has_error` if it failed. -/
def threadStep (status : ℕ → Status) (r : Bool × List ThreadState) (i : ℕ) :
    Bool × List ThreadState :=
  match r.2[i]? with
  | some .idle => if r.1 then (r.1, r.2.set i (.done .aborted)) else (r.1, r.2.set i .building)
  | some .building => (r.1 || decide (status i ≠ .ok), r.2.set i (.done (status i)))
  | _ => r

/-- The threads of `n` contexts after the main thread has joined them: the steps of the schedule,
and those that are left. -/
def runThreads (status : ℕ → Status) (n : ℕ) (schedule : List ℕ) : Bool × List ThreadState :=
  (schedule ++ (List.range n).flatMap fun i => [i, i]).foldl (threadStep status)
    (false, List.replicate n .idle)

/-- The contexts of the parallel path: a bucket that has entries, and the numbers of its file. -/
def contexts (buckets : List ℕ) : List (ℕ × ℕ × ℕ) :=
  buckets.zipIdx.map fun p => (p.1, job.nextFileNumber + p.2, job.nextEpochNumber + p.2)

/-- The loop of the parallel path over the contexts once the threads have ended. -/
def collectResults (input : FlushInput β) : List ((ℕ × ℕ × ℕ) × Status) → Built β → Built β
  | [], built => built
  | ((i, number, epochNumber), status) :: rest, built =>
    if status ≠ .ok then { built with status := status }
    else
      let table := (input.buildBucket i).table
      if 0 < table.fileSize then
        collectResults input rest { built with
          metas := built.metas ++ [⟨number, epochNumber, table⟩]
          filesToSync := built.filesToSync ++ [number]
          fileCounts := built.fileCounts.modify i (· + 1) }
      else collectResults input rest built

/-- The threads of the contexts of a flush after they have been joined. -/
def joinedThreads (input : FlushInput β) (buckets : List ℕ) : List ThreadState :=
  (runThreads (fun k => (input.buildBucket (buckets.getD k 0)).status)
    buckets.length input.schedule).2

/-- A thread builds its bucket to an empty table: it stops the process when it takes the user key
of `smallest`. -/
def ParallelDies (input : FlushInput β) (buckets : List ℕ) : Prop :=
  ∃ p ∈ buckets.zip (joinedThreads input buckets),
    p.2 = .done .ok ∧ (input.buildBucket p.1).table.fileSize = 0

instance (input : FlushInput β) (buckets : List ℕ) : Decidable (ParallelDies input buckets) :=
  inferInstanceAs (Decidable (∃ p ∈ _, _))

/-- The parallel path. The blob files each thread collects stay in the thread. -/
def buildParallel (input : FlushInput β) (job : FlushJobState β) (buckets : List ℕ)
    (built : Built β) : Option (Built β) :=
  if ParallelDies input buckets then none
  else some (collectResults input
    ((contexts job buckets).zip ((joinedThreads input buckets).map ThreadState.status))
    { built with
      nextFileNumber := built.nextFileNumber + buckets.length
      nextEpochNumber := built.nextEpochNumber + buckets.length })

/-- The flush builds its buckets on threads. -/
def TakesParallelPath (input : FlushInput β) (snapshot : BucketSnapshot) : Prop :=
  input.parallelSplitFlush = true ∧ 1 < (nonEmptyBuckets snapshot input.keys).length

instance (input : FlushInput β) (snapshot : BucketSnapshot) :
    Decidable (TakesParallelPath input snapshot) := inferInstanceAs (Decidable (_ ∧ _))

/-- The choice between the two paths. -/
def buildBuckets (input : FlushInput β) (job : FlushJobState β) (snapshot : BucketSnapshot) :
    Option (Built β) :=
  let buckets := nonEmptyBuckets snapshot input.keys
  let built := Built.start snapshot.ranges.length job
  if TakesParallelPath input snapshot then buildParallel input job buckets built
  else buildSequential input buckets built

/-! ## The bucket flush -/

/-- `flush_results`: the statistics of every bucket of the snapshot. -/
def flushResults (input : FlushInput β) (snapshot : BucketSnapshot) (built : Built β) :
    List BucketFlushResult :=
  let keys := bucketKeys snapshot input.keys
  snapshot.ranges.zipIdx.map fun p =>
    { fileCount := UInt64.ofNat (built.fileCounts.getD p.2 0)
      entryCount := UInt64.ofNat (keys.getD p.2 []).length
      dataBytes := (built.metas.map fun file =>
        if findBucketInSnapshot snapshot file.table.smallest = p.2
          then UInt64.ofNat file.table.fileSize else 0).sum
      medianKey := medianOf (keys.getD p.2 [])
      minKey := p.1.1
      maxKey := p.1.2 }

/-- `FlushJob::WriteBucketLevel0Table`. -/
def writeBucketLevel0Table (input : FlushInput β) (job : FlushJobState β) :
    Option (Status × FlushJobState β) :=
  let manager := job.initializedManager input
  if manager.initialized = false then
    some (writeLevel0Table input { job with manager := manager })
  else
    let snapshot := manager.getSnapshot
    match buildBuckets input job snapshot with
    | none => none
    | some built =>
      let s := built.status
      let job := { job with
        nextFileNumber := built.nextFileNumber
        nextEpochNumber := built.nextEpochNumber
        manager := if s = .ok then
          (input.concurrently manager).onFlushCompleted snapshot.epoch
            (flushResults input snapshot built)
          else input.concurrently manager
        -- a file that cannot be reopened or synced is reported in the log only
        synced := if s = .ok then
          job.synced ++ built.filesToSync.filter fun n => input.reopens n && input.syncs n
          else job.synced }
      let s := if s = .ok ∧ input.syncsDirectory then input.bucketDirectoryStatus else s
      if s = .ok ∧ built.metas = [] then some (writeLevel0Table input job)
      else if s = .ok then
        some (s, { job with edit :=
          { newFiles := job.edit.newFiles ++ built.metas
            blobFileAdditions := job.edit.blobFileAdditions ++ built.blobFileAdditions } })
      else some (s, job)

/-! ## The job -/

/-- The further inputs of `FlushJob::Run`: the result of `MemPurge` if it is tried, and what
happens to the column family, the DB and the manifest after the tables are written. -/
structure RunInput (β : Type) extends FlushInput β where
  useNewFlush : ℤ
  memPurge : Option Status
  isDropped : Bool
  shuttingDown : Bool
  fullHistoryTsLowStatus : Status
  writeManifest : Bool
  bgErrorStatus : Option Status
  installStatus : Status

/-- `FlushJob::PickMemTable` with at least one memtable. -/
def pickMemTable : FlushJobState β :=
  { job with
    edit := ⟨[], []⟩
    synced := []
    number := job.nextFileNumber
    epochNumber := job.nextEpochNumber
    nextFileNumber := job.nextFileNumber + 1
    nextEpochNumber := job.nextEpochNumber + 1
    baseRefs := job.baseRefs + 1 }

/-- `FlushJob::Cancel`. -/
def cancel : FlushJobState β := job.unrefBase

/-- The part of `FlushJob::Run` that writes the memtables. -/
def writeTables (input : RunInput β) (job : FlushJobState β) : Option (Status × FlushJobState β) :=
  if input.memPurge = some .ok then some (.ok, job.unrefBase)
  else if input.useNewFlush = 1 then job.writeBucketLevel0Table input.toFlushInput
  else some (job.writeLevel0Table input.toFlushInput)

/-- `FlushJob::Run` with at least one memtable. -/
def run (input : RunInput β) (job : FlushJobState β) : Option (Status × FlushJobState β) :=
  (job.writeTables input).map fun r =>
    let s := if r.1 = .ok ∧ input.isDropped then .columnFamilyDropped else r.1
    let s := if (s = .ok ∨ s = .columnFamilyDropped) ∧ input.shuttingDown
      then .shutdownInProgress else s
    let s := if s = .ok then input.fullHistoryTsLowStatus else s
    let s := if s = .ok ∧ input.writeManifest
      then input.bgErrorStatus.getD input.installStatus else s
    (s, r.2)

/-! ## What the threads end with -/

section Threads

variable {status : ℕ → Status} {r : Bool × List ThreadState}

/-- How far a thread has come. -/
def ThreadState.progress : ThreadState → ℕ
  | .idle => 0
  | .building => 1
  | .done _ => 2

/-- A step of thread `i` changes no other thread and moves `i` on, unless it has ended. -/
lemma threadStep_cases (status : ℕ → Status) (r : Bool × List ThreadState) (i : ℕ) :
    (threadStep status r i = r ∧ ∀ t, r.2[i]? = some t → t.progress = 2) ∨
    (r.2[i]? = some .idle ∧ r.1 = true ∧
      threadStep status r i = (r.1, r.2.set i (.done .aborted))) ∨
    (r.2[i]? = some .idle ∧ r.1 = false ∧ threadStep status r i = (r.1, r.2.set i .building)) ∨
    (r.2[i]? = some .building ∧ threadStep status r i =
      (r.1 || decide (status i ≠ .ok), r.2.set i (.done (status i)))) := by
  unfold threadStep
  cases hi : r.2[i]? with
  | none => exact .inl ⟨rfl, by simp⟩
  | some t =>
    cases t with
    | idle =>
      cases herror : r.1 with
      | true => exact .inr (.inl ⟨rfl, rfl, rfl⟩)
      | false => exact .inr (.inr (.inl ⟨rfl, rfl, rfl⟩))
    | building => exact .inr (.inr (.inr ⟨rfl, rfl⟩))
    | done st => exact .inl ⟨rfl, by rintro t ⟨⟩; rfl⟩

/-- The invariant of the threads: one that ended with OK has built its bucket, and as long as no
bucket fails `has_error` is not set and no thread is aborted. -/
structure ThreadsInv (status : ℕ → Status) (n : ℕ) (r : Bool × List ThreadState) : Prop where
  length_eq : r.2.length = n
  built : ∀ i, r.2[i]? = some (.done .ok) → status i = .ok
  unaborted : (∀ i < n, status i = .ok) → r.1 = false ∧ ∀ t ∈ r.2, t.status = .ok

lemma getElem?_set_eq_some {l : List ThreadState} {i j : ℕ} {t u : ThreadState}
    (h : (l.set i t)[j]? = some u) : (i = j ∧ u = t) ∨ l[j]? = some u := by
  rw [getElem?_set] at h
  split_ifs at h with hij hlt
  · exact .inl ⟨hij, (Option.some.inj h).symm⟩
  · exact .inr h

variable {n : ℕ}

lemma ThreadsInv.step (h : ThreadsInv status n r) (i : ℕ) :
    ThreadsInv status n (threadStep status r i) := by
  have hlt : ∀ {t}, r.2[i]? = some t → i < n := by
    intro t ht
    rw [← h.length_eq]
    exact (List.getElem?_eq_some_iff.1 ht).1
  have hset : ∀ t : ThreadState, t.status = .ok →
      (∀ u ∈ r.2, u.status = .ok) → ∀ u ∈ r.2.set i t, u.status = .ok := by
    intro t ht hall u hu
    rcases mem_or_eq_of_mem_set hu with hu | rfl
    · exact hall u hu
    · exact ht
  rcases threadStep_cases status r i with ⟨heq, -⟩ | ⟨hi, herror, heq⟩ | ⟨hi, -, heq⟩ | ⟨hi, heq⟩
  · rw [heq]
    exact h
  · rw [heq]
    refine ⟨by rw [length_set, h.length_eq], fun j hj => ?_, fun hall => ?_⟩
    · rcases getElem?_set_eq_some hj with ⟨-, hj⟩ | hj
      · cases hj
      · exact h.built j hj
    · exact absurd herror (by rw [(h.unaborted hall).1]; decide)
  · rw [heq]
    refine ⟨by rw [length_set, h.length_eq], fun j hj => ?_, fun hall => ?_⟩
    · rcases getElem?_set_eq_some hj with ⟨-, hj⟩ | hj
      · cases hj
      · exact h.built j hj
    · exact ⟨(h.unaborted hall).1, hset _ rfl (h.unaborted hall).2⟩
  · rw [heq]
    refine ⟨by rw [length_set, h.length_eq], fun j hj => ?_, fun hall => ?_⟩
    · rcases getElem?_set_eq_some hj with ⟨rfl, hst⟩ | hj
      · exact (ThreadState.done.inj hst).symm
      · exact h.built j hj
    · have hok := hall i (hlt hi)
      exact ⟨by simp [(h.unaborted hall).1, hok], hset _ hok (h.unaborted hall).2⟩

lemma ThreadsInv.run (steps : List ℕ) (h : ThreadsInv status n r) :
    ThreadsInv status n (steps.foldl (threadStep status) r) := by
  induction steps generalizing r with
  | nil => exact h
  | cons i steps ih => exact ih (h.step i)

/-- The progress of a thread; one that does not exist has nothing to do. -/
def progressAt (r : Bool × List ThreadState) (j : ℕ) : ℕ :=
  (r.2[j]?.map ThreadState.progress).getD 2

lemma progressAt_step (status : ℕ → Status) (r : Bool × List ThreadState) (i j : ℕ) :
    min 2 (progressAt r j + if i = j then 1 else 0) ≤ progressAt (threadStep status r i) j := by
  have hset : ∀ {t u : ThreadState}, r.2[i]? = some t → t.progress + 1 ≤ u.progress →
      min 2 (progressAt r j + if i = j then 1 else 0) ≤ progressAt (r.1, r.2.set i u) j := by
    intro t u ht hu
    unfold progressAt
    dsimp only
    rw [getElem?_set]
    by_cases hij : i = j
    · subst hij
      rw [if_pos rfl, if_pos rfl, if_pos (List.getElem?_eq_some_iff.1 ht).1, ht]
      exact (Nat.min_le_right _ _).trans hu
    · rw [if_neg hij, if_neg hij]
      exact Nat.min_le_right _ _
  rcases threadStep_cases status r i with ⟨heq, hdone⟩ | ⟨hi, -, heq⟩ | ⟨hi, -, heq⟩ | ⟨hi, heq⟩
  · rw [heq]
    by_cases hij : i = j
    · subst hij
      unfold progressAt
      cases hi : r.2[i]? with
      | none => exact Nat.min_le_left _ _
      | some t => exact (Nat.min_le_left _ _).trans (hdone t hi).ge
    · rw [if_neg hij]
      exact Nat.min_le_right _ _
  · rw [heq]
    exact hset hi (by decide)
  · rw [heq]
    exact hset hi (by decide)
  · rw [heq]
    exact hset hi (Nat.le_refl _)

lemma progressAt_run (status : ℕ → Status) (steps : List ℕ) (r : Bool × List ThreadState) (j : ℕ) :
    min 2 (progressAt r j + steps.count j) ≤ progressAt (steps.foldl (threadStep status) r) j := by
  induction steps generalizing r with
  | nil => exact Nat.min_le_right _ _
  | cons i steps ih =>
    have hstep := progressAt_step status r i j
    have hrest := ih (threadStep status r i)
    rw [count_cons, foldl_cons]
    simp only [beq_iff_eq]
    split_ifs at hstep ⊢ <;> omega

lemma two_le_count_join {i : ℕ} (hi : i < n) (schedule : List ℕ) :
    2 ≤ (schedule ++ (List.range n).flatMap fun i => [i, i]).count i := by
  have hjoin : [i, i].Sublist ((range n).flatMap fun i => [i, i]) :=
    sublist_flatten_of_mem (mem_map.2 ⟨i, mem_range.2 hi, rfl⟩)
  have hcount := hjoin.count_le i
  rw [count_append]
  simp only [count_cons_self, count_nil] at hcount
  omega

lemma threadsInv_runThreads (status : ℕ → Status) (n : ℕ) (schedule : List ℕ) :
    ThreadsInv status n (runThreads status n schedule) :=
  ThreadsInv.run _ ⟨length_replicate, fun i hi => by simp [getElem?_replicate] at hi,
    fun _ => ⟨rfl, fun t ht => by rw [eq_of_mem_replicate ht]; rfl⟩⟩

lemma done_of_mem_runThreads {schedule : List ℕ} {t : ThreadState}
    (ht : t ∈ (runThreads status n schedule).2) : ∃ st, t = .done st := by
  obtain ⟨i, hi⟩ := mem_iff_getElem?.1 ht
  have hlt : i < n := by
    rw [← (threadsInv_runThreads status n schedule).length_eq]
    exact (List.getElem?_eq_some_iff.1 hi).1
  have hcount := two_le_count_join hlt schedule
  have hprogress : 2 ≤ progressAt (runThreads status n schedule) i :=
    (by omega : 2 ≤ min 2 (_ + _)).trans (progressAt_run status _ _ i)
  rw [progressAt, hi] at hprogress
  cases t with
  | idle | building => exact absurd hprogress (by decide)
  | done st => exact ⟨st, rfl⟩

/-- The contexts all end with OK exactly when every bucket is built, whatever the schedule. -/
lemma runThreads_all_ok_iff (status : ℕ → Status) (n : ℕ) (schedule : List ℕ) :
    (∀ t ∈ (runThreads status n schedule).2, t.status = .ok) ↔ ∀ i < n, status i = .ok := by
  have hinv := threadsInv_runThreads status n schedule
  refine ⟨fun hall i hi => ?_, fun hall => (hinv.unaborted hall).2⟩
  rw [← hinv.length_eq] at hi
  obtain ⟨st, hst⟩ := done_of_mem_runThreads (getElem_mem hi)
  have hok := hall _ (getElem_mem hi)
  rw [hst] at hok
  obtain rfl : st = .ok := hok
  exact hinv.built i (by rw [getElem?_eq_getElem hi, hst])

end Threads

/-! ## What the two paths collect -/

section Build

variable {input : FlushInput β}

/-- `BuildTable` succeeds for every bucket that has entries. -/
def AllBuilt (input : FlushInput β) (buckets : List ℕ) : Prop :=
  ∀ i ∈ buckets, (input.buildBucket i).status = .ok

/-- The files of the buckets, numbered from `number` on. -/
def builtFiles (buildBucket : ℕ → BuildOutcome β) : ℕ → ℕ → List ℕ → List (Level0File β)
  | _, _, [] => []
  | number, epochNumber, i :: buckets => ⟨number, epochNumber, (buildBucket i).table⟩ ::
      builtFiles buildBucket (number + 1) (epochNumber + 1) buckets

/-- `bucket_file_counts` after the buckets. -/
def countFiles (buckets : List ℕ) (fileCounts : List ℕ) : List ℕ :=
  buckets.foldl (fun counts i => counts.modify i (· + 1)) fileCounts

/-- The sequential path stops the process: a bucket, after others that were built, is built to an
empty table, or with assertions finds the blob files of an earlier one. -/
def SequentialDies (input : FlushInput β) (buckets : List ℕ) : Prop :=
  ∃ before i after, buckets = before ++ i :: after ∧ AllBuilt input before ∧
    (((input.buildBucket i).status = .ok ∧ (input.buildBucket i).table.fileSize = 0) ∨
      (input.asserts = true ∧ (input.buildBucket i).created = true ∧
        ∃ k ∈ before, (input.buildBucket k).blobFileAdditions ≠ []))

/-- No bucket is built to an empty table. -/
def NoneEmpty (input : FlushInput β) (buckets : List ℕ) : Prop :=
  ∀ i ∈ buckets, 0 < (input.buildBucket i).table.fileSize

variable {buckets : List ℕ} {built : Built β}

/-- The loop from any state on: the blob files of the buckets before count as well. -/
lemma buildSequential_eq_none_iff : buildSequential input buckets built = none ↔
      ∃ before i after, buckets = before ++ i :: after ∧ AllBuilt input before ∧
        (((input.buildBucket i).status = .ok ∧ (input.buildBucket i).table.fileSize = 0) ∨
          (input.asserts = true ∧ (input.buildBucket i).created = true ∧
            (built.blobFileAdditions ≠ [] ∨
              ∃ k ∈ before, (input.buildBucket k).blobFileAdditions ≠ []))) := by
  induction buckets generalizing built with
  | nil => simp [buildSequential]
  | cons i buckets ih =>
    unfold buildSequential
    dsimp only
    by_cases hassert : input.asserts = true ∧ (input.buildBucket i).created = true ∧
        built.blobFileAdditions ≠ []
    · rw [if_pos hassert]
      refine iff_of_true rfl ⟨[], i, buckets, rfl, by simp [AllBuilt], .inr ?_⟩
      exact ⟨hassert.1, hassert.2.1, .inl hassert.2.2⟩
    rw [if_neg hassert]
    by_cases hok : (input.buildBucket i).status = .ok
    · rw [if_neg (not_not.2 hok)]
      by_cases hsize : (input.buildBucket i).table.fileSize = 0
      · rw [if_pos hsize]
        exact iff_of_true rfl ⟨[], i, buckets, rfl, by simp [AllBuilt], .inl ⟨hok, hsize⟩⟩
      rw [if_neg hsize, ih]
      constructor
      · rintro ⟨before, j, after, rfl, hall, hdies⟩
        refine ⟨i :: before, j, after, rfl, forall_mem_cons.2 ⟨hok, hall⟩, ?_⟩
        refine hdies.imp_right fun h => ⟨h.1, h.2.1, ?_⟩
        rcases h.2.2 with hblob | ⟨k, hk, hblob⟩
        · rw [ne_eq, append_eq_nil_iff, not_and_or] at hblob
          exact hblob.imp_right fun hblob => ⟨i, mem_cons_self, hblob⟩
        · exact .inr ⟨k, mem_cons_of_mem i hk, hblob⟩
      · rintro ⟨before, j, after, hsplit, hall, hdies⟩
        cases before with
        | nil =>
          -- the bucket at hand is not one to die at
          obtain ⟨rfl, rfl⟩ := cons_eq_cons.1 hsplit
          rcases hdies with ⟨-, hempty⟩ | ⟨hasserts, hcreated, hblob | ⟨k, hk, -⟩⟩
          · exact absurd hempty hsize
          · exact absurd ⟨hasserts, hcreated, hblob⟩ hassert
          · cases hk
        | cons i' before =>
          obtain ⟨rfl, rfl⟩ := cons_eq_cons.1 hsplit
          refine ⟨before, j, after, rfl, (forall_mem_cons.1 hall).2, ?_⟩
          refine hdies.imp_right fun h => ⟨h.1, h.2.1, ?_⟩
          rw [ne_eq, append_eq_nil_iff, not_and_or]
          rcases h.2.2 with hblob | ⟨k, hk, hblob⟩
          · exact .inl (.inl hblob)
          · rcases mem_cons.1 hk with rfl | hk
            · exact .inl (.inr hblob)
            · exact .inr ⟨k, hk, hblob⟩
    · rw [if_pos hok]
      refine iff_of_false (by simp) ?_
      rintro ⟨before, j, after, hsplit, hall, hdies⟩
      cases before with
      | nil =>
        obtain ⟨rfl, rfl⟩ := cons_eq_cons.1 hsplit
        rcases hdies with ⟨hok', -⟩ | ⟨hasserts, hcreated, hblob | ⟨k, hk, -⟩⟩
        · exact hok hok'
        · exact hassert ⟨hasserts, hcreated, hblob⟩
        · cases hk
      | cons i' before =>
        obtain ⟨rfl, rfl⟩ := cons_eq_cons.1 hsplit
        exact hok (forall_mem_cons.1 hall).1

lemma buildSequential_status {built' : Built β} (h : built.status = .ok)
    (hrun : buildSequential input buckets built = some built') :
    built'.status = .ok ↔ AllBuilt input buckets := by
  induction buckets generalizing built with
  | nil =>
    cases hrun
    simp [AllBuilt, h]
  | cons i buckets ih =>
    unfold buildSequential at hrun
    dsimp only at hrun
    rw [AllBuilt, forall_mem_cons]
    by_cases hassert : input.asserts = true ∧ (input.buildBucket i).created = true ∧
        built.blobFileAdditions ≠ []
    · rw [if_pos hassert] at hrun
      cases hrun
    rw [if_neg hassert] at hrun
    by_cases hok : (input.buildBucket i).status = .ok
    · rw [if_neg (not_not.2 hok)] at hrun
      by_cases hsize : (input.buildBucket i).table.fileSize = 0
      · rw [if_pos hsize] at hrun
        cases hrun
      · rw [if_neg hsize] at hrun
        exact (ih hok hrun).trans (and_iff_right hok).symm
    · rw [if_pos hok] at hrun
      cases hrun
      exact iff_of_false hok fun hall => hok hall.1

lemma buildSequential_of_allBuilt (h : built.status = .ok) (hall : AllBuilt input buckets)
    (hlives : buildSequential input buckets built ≠ none) :
    NoneEmpty input buckets ∧ buildSequential input buckets built = some
      { status := .ok
        metas := built.metas ++
          builtFiles input.buildBucket built.nextFileNumber built.nextEpochNumber buckets
        blobFileAdditions := built.blobFileAdditions ++
          buckets.flatMap fun i => (input.buildBucket i).blobFileAdditions
        filesToSync := built.filesToSync ++
          (builtFiles input.buildBucket built.nextFileNumber built.nextEpochNumber buckets).map (·.number)
        fileCounts := countFiles buckets built.fileCounts
        nextFileNumber := built.nextFileNumber + buckets.length
        nextEpochNumber := built.nextEpochNumber + buckets.length } := by
  induction buckets generalizing built with
  | nil =>
    cases built
    simp_all [buildSequential, builtFiles, countFiles, NoneEmpty]
  | cons i buckets ih =>
    obtain ⟨hok, hrest⟩ := forall_mem_cons.1 hall
    unfold buildSequential at hlives ⊢
    dsimp only at hlives ⊢
    by_cases hassert : input.asserts = true ∧ (input.buildBucket i).created = true ∧
        built.blobFileAdditions ≠ []
    · exact absurd (if_pos hassert) hlives
    rw [if_neg hassert, if_neg (not_not.2 hok)] at hlives ⊢
    by_cases hsize : (input.buildBucket i).table.fileSize = 0
    · exact absurd (if_pos hsize) hlives
    rw [if_neg hsize] at hlives ⊢
    obtain ⟨hnone, heq⟩ := ih hok hrest hlives
    refine ⟨forall_mem_cons.2 ⟨Nat.pos_of_ne_zero hsize, hnone⟩, heq.trans ?_⟩
    simp [builtFiles, countFiles, hok, Nat.pos_of_ne_zero hsize, Nat.add_comm, Nat.add_left_comm]

lemma collectResults_of_failed {results : List ((ℕ × ℕ × ℕ) × Status)}
    (h : ∃ p ∈ results, p.2 ≠ .ok) : (collectResults input results built).status ≠ .ok := by
  induction results generalizing built with
  | nil => simp at h
  | cons p results ih =>
    obtain ⟨⟨i, number, epochNumber⟩, status⟩ := p
    unfold collectResults
    by_cases hok : status = .ok
    · have hrest : ∃ p ∈ results, p.2 ≠ .ok := by
        obtain ⟨p, hp, hne⟩ := h
        rcases mem_cons.1 hp with rfl | hp
        · exact absurd hok hne
        · exact ⟨p, hp, hne⟩
      rw [if_neg (not_not.2 hok)]
      dsimp only
      split_ifs
      · exact ih hrest
      · exact ih hrest
    · rw [if_pos hok]
      exact hok

lemma collectResults_of_ok {job : FlushJobState β} {k : ℕ} {statuses : List Status}
    (hlength : statuses.length = buckets.length) (hok : ∀ st ∈ statuses, st = .ok)
    (hsizes : NoneEmpty input buckets) :
    collectResults input (((buckets.zipIdx k).map fun p =>
        (p.1, job.nextFileNumber + p.2, job.nextEpochNumber + p.2)).zip statuses) built =
      { built with
        metas := built.metas ++
          builtFiles input.buildBucket (job.nextFileNumber + k) (job.nextEpochNumber + k) buckets
        filesToSync := built.filesToSync ++
          (builtFiles input.buildBucket (job.nextFileNumber + k) (job.nextEpochNumber + k) buckets).map
            (·.number)
        fileCounts := countFiles buckets built.fileCounts } := by
  induction buckets generalizing k statuses built with
  | nil => simp [collectResults, builtFiles, countFiles]
  | cons i buckets ih =>
    cases statuses with
    | nil => simp at hlength
    | cons st statuses =>
      obtain ⟨rfl, hrest⟩ := forall_mem_cons.1 hok
      obtain ⟨hsize, hsizes'⟩ := forall_mem_cons.1 hsizes
      have hlength' : statuses.length = buckets.length := by simpa using hlength
      rw [zipIdx_cons, map_cons, zip_cons_cons]
      unfold collectResults
      rw [if_neg (by decide)]
      dsimp only
      rw [if_pos hsize, ih hlength' hrest hsizes']
      simp [builtFiles, countFiles, Nat.add_assoc]

lemma length_joinedThreads (input : FlushInput β) (buckets : List ℕ) :
    (joinedThreads input buckets).length = buckets.length :=
  (threadsInv_runThreads _ _ _).length_eq

/-- The statuses in the contexts are all OK exactly when every bucket is built. -/
lemma statuses_all_ok_iff (input : FlushInput β) (buckets : List ℕ) :
    (∀ st ∈ (joinedThreads input buckets).map ThreadState.status, st = .ok) ↔
      AllBuilt input buckets := by
  rw [forall_mem_map, joinedThreads, runThreads_all_ok_iff]
  constructor
  · intro hall i hi
    obtain ⟨k, hk, rfl⟩ := getElem_of_mem hi
    simpa [getD_eq_getElem?_getD, getElem?_eq_getElem hk] using hall k hk
  · intro hall k hk
    rw [getD_eq_getElem?_getD, getElem?_eq_getElem hk]
    exact hall _ (getElem_mem hk)

/-- When every bucket is built, the threads live exactly if none of the tables is empty. -/
lemma not_parallelDies_iff (hall : AllBuilt input buckets) :
    ¬ ParallelDies input buckets ↔ NoneEmpty input buckets := by
  have hok := (statuses_all_ok_iff input buckets).2 hall
  constructor
  · intro hlives i hi
    by_contra hsize
    obtain ⟨k, hk, rfl⟩ := getElem_of_mem hi
    have hk' : k < (joinedThreads input buckets).length := by rwa [length_joinedThreads]
    obtain ⟨st, hst⟩ := done_of_mem_runThreads (getElem_mem hk')
    have hstatus : st = .ok := by
      have := hok _ (mem_map.2 ⟨_, getElem_mem hk', rfl⟩)
      rwa [hst] at this
    refine hlives ⟨(buckets[k], (joinedThreads input buckets)[k]), ?_, ?_, Nat.eq_zero_of_not_pos hsize⟩
    · exact mem_iff_getElem.2 ⟨k, by simpa using ⟨hk, hk'⟩, by simp⟩
    · rw [hst, hstatus]
  · rintro hsizes ⟨p, hp, -, hempty⟩
    exact absurd hempty (hsizes p.1 (of_mem_zip hp).1).ne'

/-- The flush stops the process while it builds its buckets. -/
def BucketsDie (input : FlushInput β) (snapshot : BucketSnapshot) : Prop :=
  if TakesParallelPath input snapshot
    then ParallelDies input (nonEmptyBuckets snapshot input.keys)
    else SequentialDies input (nonEmptyBuckets snapshot input.keys)

lemma buildBuckets_eq_none_iff (input : FlushInput β) (job : FlushJobState β)
    (snapshot : BucketSnapshot) :
    buildBuckets input job snapshot = none ↔ BucketsDie input snapshot := by
  unfold buildBuckets BucketsDie
  dsimp only
  split_ifs
  · unfold buildParallel
    split_ifs with hdies
    · exact iff_of_true rfl hdies
    · exact iff_of_false (by simp) hdies
  · rw [buildSequential_eq_none_iff]
    simp [SequentialDies, Built.start]

lemma buildBuckets_status {job : FlushJobState β} {snapshot : BucketSnapshot}
    (h : buildBuckets input job snapshot = some built) :
    built.status = .ok ↔ AllBuilt input (nonEmptyBuckets snapshot input.keys) := by
  unfold buildBuckets at h
  dsimp only at h
  split_ifs at h
  · unfold buildParallel at h
    split_ifs at h with hdies
    cases h
    constructor
    · intro hok
      rw [← statuses_all_ok_iff]
      by_contra hfailed
      simp only [not_forall] at hfailed
      obtain ⟨st, hst, hne⟩ := hfailed
      obtain ⟨k, hk, rfl⟩ := getElem_of_mem hst
      refine absurd hok (collectResults_of_failed ⟨_, getElem_mem (n := k) ?_, ?_⟩)
      · rw [length_map, length_joinedThreads] at hk
        rw [length_zip, length_map, length_joinedThreads]
        simpa [contexts] using hk
      · rw [getElem_zip]
        exact hne
    · intro hall
      rw [contexts, collectResults_of_ok (by rw [length_map, length_joinedThreads])
        ((statuses_all_ok_iff input _).2 hall) ((not_parallelDies_iff hall).1 hdies)]
      rfl
  · exact buildSequential_status rfl h

/-- What the flush collects when every bucket is built. The two paths differ in the blob files
only. -/
lemma buildBuckets_of_allBuilt (job : FlushJobState β) {snapshot : BucketSnapshot}
    (hall : AllBuilt input (nonEmptyBuckets snapshot input.keys))
    (hlives : ¬ BucketsDie input snapshot) :
    buildBuckets input job snapshot = some
      { status := .ok
        metas := builtFiles input.buildBucket job.nextFileNumber job.nextEpochNumber
          (nonEmptyBuckets snapshot input.keys)
        blobFileAdditions := if TakesParallelPath input snapshot then [] else
          (nonEmptyBuckets snapshot input.keys).flatMap fun i =>
            (input.buildBucket i).blobFileAdditions
        filesToSync := (builtFiles input.buildBucket job.nextFileNumber job.nextEpochNumber
          (nonEmptyBuckets snapshot input.keys)).map (·.number)
        fileCounts := countFiles (nonEmptyBuckets snapshot input.keys)
          (List.replicate snapshot.ranges.length 0)
        nextFileNumber := job.nextFileNumber + (nonEmptyBuckets snapshot input.keys).length
        nextEpochNumber := job.nextEpochNumber +
          (nonEmptyBuckets snapshot input.keys).length } := by
  have hsome := mt (buildBuckets_eq_none_iff input job snapshot).1 hlives
  unfold BucketsDie at hlives
  unfold buildBuckets at hsome ⊢
  dsimp only at hsome ⊢
  by_cases hpath : TakesParallelPath input snapshot
  · rw [if_pos hpath] at hlives
    rw [if_pos hpath, if_pos hpath, buildParallel, if_neg hlives, contexts, collectResults_of_ok (by
      rw [length_map, length_joinedThreads]) ((statuses_all_ok_iff input _).2 hall)
      ((not_parallelDies_iff hall).1 hlives)]
    rfl
  · rw [if_neg hpath] at hsome
    rw [if_neg hpath, if_neg hpath, (buildSequential_of_allBuilt rfl hall hsome).2]
    rfl

end Build

/-! ## The exits of the bucket flush -/

/-- The sync of the output directory in the bucket flush succeeds, or is not asked for. -/
def DirectorySynced (input : FlushInput β) : Prop :=
  input.syncsDirectory = true → input.bucketDirectoryStatus = .ok

instance (input : FlushInput β) : Decidable (DirectorySynced input) :=
  inferInstanceAs (Decidable (_ → _))

/-- The buckets of the flush that have entries. -/
def flushedBuckets (input : FlushInput β) (job : FlushJobState β) : List ℕ :=
  nonEmptyBuckets (job.initializedManager input).getSnapshot input.keys

/-- The files of the buckets when all of them are built. -/
def bucketFiles (input : FlushInput β) (job : FlushJobState β) : List (Level0File β) :=
  builtFiles input.buildBucket job.nextFileNumber job.nextEpochNumber (job.flushedBuckets input)

/-- The buckets of the flush stop the process. -/
def Dies (input : FlushInput β) (job : FlushJobState β) : Prop :=
  BucketsDie input (job.initializedManager input).getSnapshot

/-- What a bucket flush leaves alone until it writes its edit. -/
structure SameJob (job job' : FlushJobState β) : Prop where
  edit_eq : job'.edit = job.edit
  baseRefs_eq : job'.baseRefs = job.baseRefs
  number_eq : job'.number = job.number
  epochNumber_eq : job'.epochNumber = job.epochNumber

/-- The exits of `WriteBucketLevel0Table`: the manager is not initialised, the process is stopped, a
bucket or the sync of the directory fails, nothing is written, or the files are added to the
edit. -/
inductive BucketExit (input : FlushInput β) (job : FlushJobState β) :
    Option (Status × FlushJobState β) → Prop
  | uninitialized {job' : FlushJobState β} : (job.initializedManager input).initialized = false →
      SameJob job job' → BucketExit input job (some (writeLevel0Table input job'))
  | died : (job.initializedManager input).initialized = true → job.Dies input →
      BucketExit input job none
  | failed {s : Status} {job' : FlushJobState β} : (job.initializedManager input).initialized = true →
      ¬ job.Dies input → ¬ (AllBuilt input (job.flushedBuckets input) ∧ DirectorySynced input) →
      s ≠ .ok → SameJob job job' → BucketExit input job (some (s, job'))
  | nothing {job' : FlushJobState β} : (job.initializedManager input).initialized = true →
      ¬ job.Dies input → DirectorySynced input → job.flushedBuckets input = [] →
      SameJob job job' → BucketExit input job (some (writeLevel0Table input job'))
  | written {job' : FlushJobState β} : (job.initializedManager input).initialized = true →
      ¬ job.Dies input → AllBuilt input (job.flushedBuckets input) → DirectorySynced input →
      job.flushedBuckets input ≠ [] → job'.baseRefs = job.baseRefs →
      job'.synced = job.synced ++ ((job.bucketFiles input).map (·.number)).filter
        (fun n => input.reopens n && input.syncs n) →
      job'.edit.newFiles = job.edit.newFiles ++ job.bucketFiles input →
      job'.edit.blobFileAdditions = job.edit.blobFileAdditions ++
        (if TakesParallelPath input (job.initializedManager input).getSnapshot then [] else
          (job.flushedBuckets input).flatMap fun i => (input.buildBucket i).blobFileAdditions) →
      BucketExit input job (some (.ok, job'))

lemma builtFiles_eq_nil_iff (buildBucket : ℕ → BuildOutcome β) (number epochNumber : ℕ)
    (buckets : List ℕ) : builtFiles buildBucket number epochNumber buckets = [] ↔ buckets = [] := by
  cases buckets <;> simp [builtFiles]

lemma bucketExit (input : FlushInput β) (job : FlushJobState β) :
    BucketExit input job (job.writeBucketLevel0Table input) := by
  unfold writeBucketLevel0Table
  dsimp only
  by_cases hinit : (job.initializedManager input).initialized = false
  · rw [if_pos hinit]
    exact .uninitialized hinit ⟨rfl, rfl, rfl, rfl⟩
  rw [if_neg hinit]
  have hinit' := Bool.eq_true_of_not_eq_false hinit
  cases hbuild : buildBuckets input job (job.initializedManager input).getSnapshot with
  | none => exact .died hinit' ((buildBuckets_eq_none_iff input job _).1 hbuild)
  | some built =>
    have hlives : ¬ job.Dies input := fun hdies => by
      rw [(buildBuckets_eq_none_iff input job _).2 hdies] at hbuild
      cases hbuild
    have hstatus : (if built.status = .ok ∧ input.syncsDirectory = true
        then input.bucketDirectoryStatus else built.status) = .ok ↔
        AllBuilt input (job.flushedBuckets input) ∧ DirectorySynced input := by
      rw [flushedBuckets, ← buildBuckets_status hbuild, DirectorySynced]
      split_ifs with hsync
      · exact ⟨fun h => ⟨hsync.1, fun _ => h⟩, fun h => h.2 hsync.2⟩
      · exact ⟨fun h => ⟨h, fun hdir => absurd ⟨h, hdir⟩ hsync⟩, fun h => h.1⟩
    dsimp only
    by_cases hok : AllBuilt input (job.flushedBuckets input) ∧ DirectorySynced input
    · have hbuilt := Option.some.inj (hbuild.symm.trans (buildBuckets_of_allBuilt job hok.1 hlives))
      have hmetas : built.metas = [] ↔ job.flushedBuckets input = [] := by
        rw [hbuilt]
        exact builtFiles_eq_nil_iff _ _ _ _
      rw [hstatus.2 hok]
      by_cases hfiles : job.flushedBuckets input = []
      · rw [if_pos ⟨rfl, hmetas.2 hfiles⟩]
        exact .nothing hinit' hlives hok.2 hfiles ⟨rfl, rfl, rfl, rfl⟩
      · rw [if_neg fun h => hfiles (hmetas.1 h.2), if_pos rfl, hbuilt]
        exact .written hinit' hlives hok.1 hok.2 hfiles rfl rfl rfl rfl
    · have hfailed := mt hstatus.1 hok
      rw [if_neg fun h => hfailed h.1, if_neg hfailed]
      exact .failed hinit' hlives hok hfailed ⟨rfl, rfl, rfl, rfl⟩

end FlushJobState

end BucketLSM
