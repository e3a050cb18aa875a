import BucketLSM.Flush.MemTableList
import Mathlib.Logic.Relation

/-!
# The epoch numbers of concurrent bucket flushes

A plain flush takes its epoch number in `FlushJob::PickMemTable`, under the DB mutex. A
bucket flush takes one for each bucket file later, in `WriteBucketLevel0Table`, after the
mutex is released. The model interleaves the steps of any number of jobs and follows the
epoch numbers into level 0.
-/

namespace BucketLSM

open Option List MemTable MemTableList

/-! ## The flushes of one column family -/

/-- How far a flush job has come. -/
inductive FlushPhase
  | running
  | finished
  | failed
deriving DecidableEq, Repr

/-- A flush job: the ids of its memtables, the epoch number taken in `PickMemTable`, and the
epoch numbers its level-0 files carry. A bucket flush takes the latter one by one while it
runs. -/
structure FlushJob where
  mems : List ℕ
  epochNumber : ℕ
  fileEpochs : List ℕ
  phase : FlushPhase
deriving DecidableEq, Repr

/-- The flush side of a column family: the immutable memtables, the jobs in the order they
were created, and the level-0 files flushes have installed. -/
structure FlushState where
  memlist : List MemTable
  nextMemtableId : ℕ
  nextEpochNumber : ℕ
  jobs : List FlushJob
  level0 : List FlushedFile
deriving DecidableEq, Repr

/-- The steps of bucket-mode flush jobs, each atomic. -/
inductive FlushOp
  /-- A memtable becomes immutable. -/
  | addMemtable
  /-- `FlushJob::PickMemTable` of a new job, under the DB mutex. -/
  | pickMemTable (maxMemtableId : ℕ)
  /-- A running job takes the epoch number of its next bucket file, without the mutex. -/
  | newEpochNumber (job : ℕ)
  /-- The job has written its bucket files; buckets whose file is empty add none. -/
  | finishBuckets (job : ℕ) (kept : List ℕ)
  /-- The job has fallen back to `WriteLevel0Table`, which adds one file or, if that is
  empty, none. -/
  | finishFallback (job : ℕ) (nonempty : Bool)
  /-- The job has failed and rolls its memtables back. -/
  | fail (job : ℕ)
  /-- The completed memtables are committed; the manifest write may fail. -/
  | commit (manifestWritten : Bool)
deriving DecidableEq, Repr

namespace FlushState

/-- A column family with no memtable to flush. -/
def init (nextEpochNumber : ℕ) : FlushState := ⟨[], 1, nextEpochNumber, [], []⟩

/-- The job with the given number, if it is running. -/
def running (s : FlushState) (j : ℕ) : Option FlushJob :=
  (s.jobs[j]?).bind fun job => if job.phase = .running then some job else none

/-- A running job ends with the given level-0 files; `TryInstallMemtableFlushResults` marks
its memtables. -/
def finish (s : FlushState) (j : ℕ) (job : FlushJob) (epochs : List ℕ) : FlushState :=
  { s with
    jobs := s.jobs.set j { job with fileEpochs := epochs, phase := .finished }
    memlist := MemTableList.complete job.mems j (epochs.map (FlushedFile.mk j)) s.memlist }

/-- A step, where it is enabled. -/
def apply (s : FlushState) : FlushOp → Option FlushState
  | .addMemtable =>
    some { s with
      memlist := s.memlist ++ [MemTable.new s.nextMemtableId]
      nextMemtableId := s.nextMemtableId + 1 }
  | .pickMemTable maxMemtableId =>
    match MemTableList.pickMemtablesToFlush maxMemtableId s.memlist with
    | (_, []) => none
    | (memlist, m :: mems) =>
      some { s with
        memlist := memlist
        jobs := s.jobs ++ [⟨m :: mems, s.nextEpochNumber, [], .running⟩]
        nextEpochNumber := s.nextEpochNumber + 1 }
  | .newEpochNumber j =>
    (s.running j).map fun job =>
      { s with
        jobs := s.jobs.set j { job with fileEpochs := job.fileEpochs ++ [s.nextEpochNumber] }
        nextEpochNumber := s.nextEpochNumber + 1 }
  | .finishBuckets j kept =>
    (s.running j).bind fun job =>
      if kept ≠ [] ∧ kept.Sublist job.fileEpochs then some (s.finish j job kept) else none
  | .finishFallback j nonempty =>
    (s.running j).map fun job => s.finish j job (if nonempty then [job.epochNumber] else [])
  | .fail j =>
    (s.running j).map fun job =>
      { s with
        jobs := s.jobs.set j { job with phase := .failed }
        memlist := MemTableList.rollbackMemtableFlush job.mems s.memlist }
  | .commit manifestWritten =>
    some { s with
      memlist := MemTableList.removeOrRestore manifestWritten s.memlist
      level0 := if manifestWritten
        then s.level0 ++ MemTableList.batchEdits none (MemTableList.committable s.memlist)
        else s.level0 }

/-- The memtables of a job. -/
def mems (s : FlushState) (j : ℕ) : List ℕ := (s.jobs[j]?).elim [] FlushJob.mems

/-- The epoch numbers of the level-0 files of a job, as far as it has taken them. -/
def fileEpochs (s : FlushState) (j : ℕ) : List ℕ := (s.jobs[j]?).elim [] FlushJob.fileEpochs

/-- Every memtable of job `i` is older than every memtable of job `j`. -/
def Older (s : FlushState) (i j : ℕ) : Prop := ∀ m ∈ s.mems i, ∀ m' ∈ s.mems j, m < m'

instance (s : FlushState) (i j : ℕ) : Decidable (s.Older i j) :=
  inferInstanceAs (Decidable (∀ m ∈ s.mems i, ∀ m' ∈ s.mems j, m < m'))

/-- The job is running, or it has finished and waits for its commit. -/
def Pending (s : FlushState) (j : ℕ) : Prop :=
  (∃ job, s.running j = some job) ∨ ∃ m ∈ s.memlist, m.flushCompleted ∧ m.fileNumber = j

/-- Level-0 files of the job have been installed. -/
def Installed (s : FlushState) (j : ℕ) : Prop := ∃ f ∈ s.level0, f.job = j

/-- The job has files in level 0, or can still get some there. -/
def Active (s : FlushState) (j : ℕ) : Prop := s.Pending j ∨ s.Installed j

/-- The level-0 files in the order a read searches them: `NewestFirstByEpochNumber`. -/
def searchOrder (s : FlushState) : List FlushedFile :=
  s.level0.insertionSort fun f g => g.epochNumber ≤ f.epochNumber

/-- The order in which jobs have to take epoch numbers. A bucket file's epoch number is taken
while no pending job over younger memtables has taken one. A job falls back to its own epoch
number only if no job over older memtables took one after its `PickMemTable`, and pending
jobs over younger memtables took theirs after it. -/
def InOrder (s : FlushState) : FlushOp → Prop
  | .newEpochNumber j => ∀ i, s.Pending i → s.Older j i → s.fileEpochs i = []
  | .finishFallback j true => ∀ job, s.running j = some job →
      (∀ i, s.Active i → s.Older i j → ∀ e ∈ s.fileEpochs i, e < job.epochNumber) ∧
      ∀ i, s.Pending i → s.Older j i → ∀ e ∈ s.fileEpochs i, job.epochNumber < e
  | _ => True

/-- One step of any job. -/
def Step (s t : FlushState) : Prop := ∃ op, s.apply op = some t

/-- One step that takes epoch numbers in order. -/
def OrderedStep (s t : FlushState) : Prop := ∃ op, s.InOrder op ∧ s.apply op = some t

end FlushState

/-! ## The invariant -/

namespace FlushState

/-- What holds in every reachable state: memtables are listed by age; the memtables of a
running job are in the list, in progress, and no two running jobs share one; the edit of a
completed memtable belongs to the finished job that completed it; and of every job with
installed files a memtable has left the list, before all those still in it. -/
structure Inv (s : FlushState) : Prop where
  sorted : (s.memlist.map MemTable.id).Pairwise (· < ·)
  fresh : ∀ m ∈ s.memlist, m.id < s.nextMemtableId
  idle : ∀ m ∈ s.memlist, m.flushCompleted = false → m.edit = []
  inProgress : ∀ m ∈ s.memlist, m.flushCompleted → m.flushInProgress
  mems_ne_nil : ∀ j < s.jobs.length, s.mems j ≠ []
  mems_lt : ∀ j, ∀ a ∈ s.mems j, a < s.nextMemtableId
  running : ∀ j job, s.running j = some job → ∀ a ∈ job.mems,
    ∃ m ∈ s.memlist, m.id = a ∧ m.flushInProgress ∧ m.flushCompleted = false
  disjoint : ∀ i job j job', s.running i = some job → s.running j = some job' → i ≠ j →
    ∀ a ∈ job.mems, a ∉ job'.mems
  completed : ∀ m ∈ s.memlist, m.flushCompleted → m.fileNumber < s.jobs.length ∧
    s.running m.fileNumber = none ∧ m.id ∈ s.mems m.fileNumber ∧
    ∀ f ∈ m.edit, f.job = m.fileNumber ∧ f.epochNumber ∈ s.fileEpochs f.job
  installed : ∀ f ∈ s.level0, f.job < s.jobs.length ∧ s.running f.job = none ∧
    f.epochNumber ∈ s.fileEpochs f.job ∧ ∃ a ∈ s.mems f.job, ∀ m ∈ s.memlist, a < m.id
  epochs_lt : ∀ j, ∀ e ∈ s.fileEpochs j, e < s.nextEpochNumber
  epoch_lt : ∀ j job, s.running j = some job → job.epochNumber < s.nextEpochNumber

/-- The active jobs use epoch numbers in the order of their memtables. -/
def Ordered (s : FlushState) : Prop :=
  ∀ i j, s.Active i → s.Active j → s.Older i j → ∀ e ∈ s.fileEpochs i, ∀ e' ∈ s.fileEpochs j, e < e'

variable {s : FlushState} {j : ℕ} {job : FlushJob}

lemma running_eq_some : s.running j = some job ↔ s.jobs[j]? = some job ∧ job.phase = .running := by
  unfold running
  cases h : s.jobs[j]? with
  | none => simp
  | some x =>
    by_cases hx : x.phase = .running
    · simp only [bind_some, hx, if_true, some.injEq]
      exact ⟨fun h => ⟨h, h ▸ hx⟩, fun h => h.1⟩
    · simp only [bind_some, hx, if_false, some.injEq]
      exact ⟨fun h => absurd h (by simp), fun ⟨h, h'⟩ => absurd (h ▸ h') hx⟩

section

variable (h : s.running j = some job)

include h

lemma mems_eq : s.mems j = job.mems := by
  simp [mems, (running_eq_some.1 h).1]

lemma fileEpochs_eq : s.fileEpochs j = job.fileEpochs := by
  simp [fileEpochs, (running_eq_some.1 h).1]

lemma lt_length : j < s.jobs.length :=
  (List.getElem?_eq_some_iff.1 (running_eq_some.1 h).1).1

lemma pending_of_running : s.Pending j := .inl ⟨job, h⟩

end

lemma Inv.not_older_self (hinv : s.Inv) (hj : j < s.jobs.length) : ¬ s.Older j j := by
  intro h
  obtain ⟨a, ha⟩ := exists_mem_of_ne_nil _ (hinv.mems_ne_nil j hj)
  exact absurd (h a ha a ha) (lt_irrefl a)

variable {i maxId : ℕ} {x : FlushJob} {written : Bool}

/-- A running job has no installed job over younger memtables. -/
lemma Inv.not_installed_of_older (hinv : s.Inv) (hrun : s.running j = some job)
    (hold : s.Older j i) : ¬ s.Installed i := by
  rintro ⟨f, hf, rfl⟩
  obtain ⟨-, -, -, a, ha, hlt⟩ := hinv.installed f hf
  obtain ⟨b, hb⟩ := exists_mem_of_ne_nil _ (hinv.mems_ne_nil j (lt_length hrun))
  rw [mems_eq hrun] at hb
  obtain ⟨m, hm, rfl, -⟩ := hinv.running j job hrun b hb
  exact absurd (hlt m hm) (not_lt.2 (hold m.id (mems_eq hrun ▸ hb) a ha).le)

/-! ### Replacing the record of a running job -/

/-- A state in which only the record of the running job `j` has changed, and of that only
the epoch numbers and the phase. -/
structure JobUpdate (s t : FlushState) (j : ℕ) (job job' : FlushJob) : Prop where
  running : s.running j = some job
  jobs : t.jobs = s.jobs.set j job'
  mems : job'.mems = job.mems
  epoch : job'.epochNumber = job.epochNumber

variable {t : FlushState} {job' : FlushJob}

section

variable (h : JobUpdate s t j job job')

include h

lemma JobUpdate.getElem? (i : ℕ) : t.jobs[i]? = if i = j then some job' else s.jobs[i]? := by
  rw [h.jobs, getElem?_set]
  by_cases hij : j = i
  · subst hij
    simp [lt_length h.running]
  · simp [hij, Ne.symm hij]

lemma JobUpdate.mems_eq (i : ℕ) : t.mems i = s.mems i := by
  unfold FlushState.mems
  rw [h.getElem?]
  split_ifs with hij
  · subst hij
    simp [h.mems, (running_eq_some.1 h.running).1]
  · rfl

lemma JobUpdate.fileEpochs_eq (i : ℕ) :
    t.fileEpochs i = if i = j then job'.fileEpochs else s.fileEpochs i := by
  unfold fileEpochs
  rw [h.getElem?]
  split_ifs <;> rfl

lemma JobUpdate.running_of_ne (hij : i ≠ j) : t.running i = s.running i := by
  unfold FlushState.running
  rw [h.getElem?, if_neg hij]

lemma JobUpdate.running_self : t.running j = if job'.phase = .running then some job' else none := by
  unfold FlushState.running
  rw [h.getElem?, if_pos rfl]
  rfl

lemma JobUpdate.length_eq : t.jobs.length = s.jobs.length := by
  rw [h.jobs, length_set]

lemma JobUpdate.older_iff (i k : ℕ) : t.Older i k ↔ s.Older i k := by
  unfold Older
  rw [h.mems_eq, h.mems_eq]

end

/-! ### Every step keeps the invariant -/

lemma JobUpdate.ne_of_not_running (h : JobUpdate s t j job job') (hi : s.running i = none) :
    i ≠ j := by
  rintro rfl
  exact some_ne_none job (h.running.symm.trans hi)

/-- Once `j` has ended, the running jobs are the others. -/
lemma JobUpdate.other_running (h : JobUpdate s t j job job') (hphase : job'.phase ≠ .running)
    {x : FlushJob} (hx : t.running i = some x) : i ≠ j ∧ s.running i = some x := by
  have hij : i ≠ j := by
    rintro rfl
    rw [h.running_self, if_neg hphase] at hx
    exact some_ne_none x hx.symm
  exact ⟨hij, h.running_of_ne hij ▸ hx⟩

section

variable (hrun : s.running j = some job)

include hrun

lemma jobUpdate_newEpochNumber : JobUpdate s
    { s with
      jobs := s.jobs.set j { job with fileEpochs := job.fileEpochs ++ [s.nextEpochNumber] }
      nextEpochNumber := s.nextEpochNumber + 1 } j job
    { job with fileEpochs := job.fileEpochs ++ [s.nextEpochNumber] } := ⟨hrun, rfl, rfl, rfl⟩

lemma jobUpdate_finish (epochs : List ℕ) : JobUpdate s (s.finish j job epochs) j job
      { job with fileEpochs := epochs, phase := .finished } := ⟨hrun, rfl, rfl, rfl⟩

lemma jobUpdate_fail : JobUpdate s
    { s with
      jobs := s.jobs.set j { job with phase := .failed }
      memlist := MemTableList.rollbackMemtableFlush job.mems s.memlist } j job
    { job with phase := .failed } := ⟨hrun, rfl, rfl, rfl⟩

end

lemma inv_init (n : ℕ) : (init n).Inv := by
  constructor <;> simp [init, mems, fileEpochs, running]

lemma Inv.addMemtable (hinv : s.Inv) (h : s.apply .addMemtable = some t) : t.Inv := by
  obtain rfl := some.inj h
  have hmem : ∀ m ∈ s.memlist ++ [new s.nextMemtableId],
      m ∈ s.memlist ∨ m = new s.nextMemtableId := by simp
  refine ⟨?_, fun m hm => ?_, fun m hm hc => ?_, fun m hm hc => ?_, hinv.mems_ne_nil,
    fun i a ha => ?_, fun i x hx a ha => ?_, hinv.disjoint, fun m hm hc => ?_, fun f hf => ?_,
    hinv.epochs_lt, hinv.epoch_lt⟩
  · rw [map_append, pairwise_append]
    refine ⟨hinv.sorted, by simp, ?_⟩
    rintro _ ha b hb
    obtain ⟨m, hm, rfl⟩ := mem_map.1 ha
    obtain rfl : b = s.nextMemtableId := by simpa [new] using hb
    exact hinv.fresh m hm
  · rcases hmem m hm with hm | rfl
    · exact Nat.lt_succ_of_lt (hinv.fresh m hm)
    · exact Nat.lt_succ_self _
  · rcases hmem m hm with hm | rfl
    · exact hinv.idle m hm hc
    · rfl
  · rcases hmem m hm with hm | rfl
    · exact hinv.inProgress m hm hc
    · exact absurd hc (by simp [new])
  · exact Nat.lt_succ_of_lt (hinv.mems_lt i a ha)
  · obtain ⟨m, hm, h⟩ := hinv.running i x hx a ha
    exact ⟨m, mem_append_left _ hm, h⟩
  · rcases hmem m hm with hm | rfl
    · exact hinv.completed m hm hc
    · exact absurd hc (by simp [new])
  · obtain ⟨h1, h2, h3, a, ha, hlt⟩ := hinv.installed f hf
    refine ⟨h1, h2, h3, a, ha, fun m hm => ?_⟩
    rcases hmem m hm with hm | rfl
    · exact hlt m hm
    · exact hinv.mems_lt _ a ha

/-- The job a successful `PickMemTable` adds. -/
lemma apply_pickMemTable (h : s.apply (.pickMemTable maxId) = some t) :
    ∃ mems, mems ≠ [] ∧ (MemTableList.pickMemtablesToFlush maxId s.memlist).2 = mems ∧
      t = { s with
        memlist := (MemTableList.pickMemtablesToFlush maxId s.memlist).1
        jobs := s.jobs ++ [⟨mems, s.nextEpochNumber, [], .running⟩]
        nextEpochNumber := s.nextEpochNumber + 1 } := by
  unfold apply at h
  rcases hp : pickMemtablesToFlush maxId s.memlist with ⟨l, _ | ⟨m, ms⟩⟩
  · simp [hp] at h
  · simp only [hp, some.injEq] at h
    exact ⟨m :: ms, by simp, rfl, h.symm⟩

section

variable (ht : t.jobs = s.jobs ++ [x])

include ht

/-- The records of the old jobs after a new one has been added. -/
lemma getElem?_append_job (i : ℕ) :
    t.jobs[i]? = if i = s.jobs.length then some x else s.jobs[i]? := by
  rw [ht]
  split_ifs with hi
  · simp [hi]
  · by_cases hlt : i < s.jobs.length
    · rw [getElem?_append_left hlt]
    · rw [getElem?_eq_none (by simp; omega), getElem?_eq_none (by omega)]

lemma mems_append_job (i : ℕ) : t.mems i = if i = s.jobs.length then x.mems else s.mems i := by
  unfold mems
  rw [getElem?_append_job ht]
  split_ifs <;> rfl

lemma fileEpochs_append_job (i : ℕ) :
    t.fileEpochs i = if i = s.jobs.length then x.fileEpochs else s.fileEpochs i := by
  unfold fileEpochs
  rw [getElem?_append_job ht]
  split_ifs <;> rfl

lemma running_append_job (hi : i ≠ s.jobs.length) : t.running i = s.running i := by
  unfold running
  rw [getElem?_append_job ht, if_neg hi]

end

section

variable (hinv : s.Inv)

include hinv

lemma eq_of_mem_of_id_eq {m m' : MemTable} (hm : m ∈ s.memlist)
    (hm' : m' ∈ s.memlist) (hid : m.id = m'.id) : m = m' :=
  inj_on_of_nodup_map (hinv.sorted.imp fun h => h.ne) hm hm' hid

/-- `PickMemTable` leaves completed memtables alone. -/
lemma Inv.mem_of_completed_pick {m : MemTable}
    (hm : m ∈ (MemTableList.pickMemtablesToFlush maxId s.memlist).1) (hc : m.flushCompleted) :
    m ∈ s.memlist := by
  rcases (pickLoop_spec maxId false s.memlist).2.2.1 m hm with h | ⟨m₀, hm₀, hidle, rfl⟩
  · exact h
  · rw [hinv.inProgress m₀ hm₀ hc] at hidle
    exact absurd hidle (by simp)

lemma Inv.pickMemTable (h : s.apply (.pickMemTable maxId) = some t) : t.Inv := by
  obtain ⟨ms, hne, hms, rfl⟩ := apply_pickMemTable h
  obtain ⟨hids, hkeep, hfrom, hpicked⟩ := pickLoop_spec maxId false s.memlist
  change (pickMemtablesToFlush maxId s.memlist).1.map _ = _ at hids
  change ∀ m ∈ s.memlist, _ → m ∈ (pickMemtablesToFlush maxId s.memlist).1 at hkeep
  change ∀ m ∈ (pickMemtablesToFlush maxId s.memlist).1, _ at hfrom
  change ∀ a ∈ (pickMemtablesToFlush maxId s.memlist).2, ∃ m ∈ s.memlist, _ ∧ _ ∧
    _ ∈ (pickMemtablesToFlush maxId s.memlist).1 at hpicked
  rw [hms] at hpicked
  have hold : ∀ m ∈ (pickMemtablesToFlush maxId s.memlist).1, m.flushCompleted →
      m ∈ s.memlist := fun m => hinv.mem_of_completed_pick
  generalize (pickMemtablesToFlush maxId s.memlist).1 = l
    at hids hkeep hfrom hpicked hold
  set t : FlushState := { s with
    memlist := l
    jobs := s.jobs ++ [⟨ms, s.nextEpochNumber, [], .running⟩]
    nextEpochNumber := s.nextEpochNumber + 1 } with ht
  have hjobs : t.jobs = s.jobs ++ [⟨ms, s.nextEpochNumber, [], .running⟩] := rfl
  have hsame : ∀ m ∈ l, ∃ m₀ ∈ s.memlist, m₀.id = m.id ∧ m₀.edit = m.edit ∧
      m₀.flushCompleted = m.flushCompleted := by
    intro m hm
    rcases hfrom m hm with h | ⟨m₀, hm₀, -, rfl⟩
    · exact ⟨m, h, rfl, rfl, rfl⟩
    · exact ⟨m₀, hm₀, rfl, rfl, rfl⟩
  have hrun : ∀ i x, t.running i = some x → s.running i = some x ∨ i = s.jobs.length ∧ x.mems = ms ∧
        x.epochNumber = s.nextEpochNumber := by
    intro i x hx
    by_cases hi : i = s.jobs.length
    · have hget := (running_eq_some.1 hx).1
      rw [getElem?_append_job hjobs, if_pos hi] at hget
      exact .inr ⟨hi, by rw [← some.inj hget], by rw [← some.inj hget]⟩
    · exact .inl (running_append_job hjobs hi ▸ hx)
  have hpickedIdle : ∀ a ∈ ms, ∀ i x, s.running i = some x → a ∉ x.mems := by
    intro a ha i x hx hax
    obtain ⟨m, hm, hidle, rfl, -⟩ := hpicked a ha
    obtain ⟨m', hm', hid, hprog, -⟩ := hinv.running i x hx m.id hax
    rw [eq_of_mem_of_id_eq hinv hm' hm hid, hidle] at hprog
    exact absurd hprog (by simp)
  refine ⟨?_, fun m hm => ?_, fun m hm hc => ?_, fun m hm hc => ?_, fun i hi => ?_,
    fun i a ha => ?_, fun i x hx a ha => ?_, fun i x k y hx hy hik a ha hay => ?_,
    fun m hm hc => ?_, fun f hf => ?_, fun i e he => ?_, fun i x hx => ?_⟩
  · exact hids ▸ hinv.sorted
  · obtain ⟨m₀, hm₀, hid, -⟩ := hsame m hm
    exact hid ▸ hinv.fresh m₀ hm₀
  · obtain ⟨m₀, hm₀, -, hedit, hcomp⟩ := hsame m hm
    exact hedit ▸ hinv.idle m₀ hm₀ (hcomp ▸ hc)
  · exact hinv.inProgress m (hold m hm hc) hc
  · rw [mems_append_job hjobs]
    split_ifs with hlen
    · exact hne
    · have hlt : i < s.jobs.length + 1 := by simpa [ht] using hi
      exact hinv.mems_ne_nil i (by omega)
  · rw [mems_append_job hjobs] at ha
    split_ifs at ha
    · obtain ⟨m, hm, -, rfl, -⟩ := hpicked a ha
      exact hinv.fresh m hm
    · exact hinv.mems_lt i a ha
  · rcases hrun i x hx with hx | ⟨-, hxm, -⟩
    · obtain ⟨m, hm, hid, hprog, hc⟩ := hinv.running i x hx a ha
      exact ⟨m, hkeep m hm hprog, hid, hprog, hc⟩
    · obtain ⟨m, hm, hidle, hid, hmem⟩ := hpicked a (hxm ▸ ha)
      refine ⟨_, hmem, hid, rfl, ?_⟩
      -- an idle memtable is not completed
      by_contra hc
      have := hinv.inProgress m hm (by simpa using hc)
      rw [hidle] at this
      exact absurd this (by simp)
  · rcases hrun i x hx with hx | ⟨hi, hxm, -⟩
    · rcases hrun k y hy with hy | ⟨-, hym, -⟩
      · exact hinv.disjoint i x k y hx hy hik a ha hay
      · exact hpickedIdle a (hym ▸ hay) i x hx ha
    · rcases hrun k y hy with hy | ⟨hk, -, -⟩
      · exact hpickedIdle a (hxm ▸ ha) k y hy hay
      · exact hik (hi.trans hk.symm)
  · obtain ⟨h1, h2, h3, h4⟩ := hinv.completed m (hold m hm hc) hc
    have hne' : m.fileNumber ≠ s.jobs.length := by omega
    refine ⟨?_, ?_, ?_, fun f hf => ⟨(h4 f hf).1, ?_⟩⟩
    · simp only [ht, length_append, length_singleton]
      omega
    · rw [running_append_job hjobs hne']
      exact h2
    · rw [mems_append_job hjobs, if_neg hne']
      exact h3
    · rw [fileEpochs_append_job hjobs, if_neg ((h4 f hf).1 ▸ hne')]
      exact (h4 f hf).2
  · obtain ⟨h1, h2, h3, a, ha, hlt⟩ := hinv.installed f hf
    have hne' : f.job ≠ s.jobs.length := by omega
    refine ⟨?_, ?_, ?_, a, ?_, fun m hm => ?_⟩
    · simp only [ht, length_append, length_singleton]
      omega
    · rw [running_append_job hjobs hne']
      exact h2
    · rw [fileEpochs_append_job hjobs, if_neg hne']
      exact h3
    · rw [mems_append_job hjobs, if_neg hne']
      exact ha
    · obtain ⟨m₀, hm₀, hid, -⟩ := hsame m hm
      exact hid ▸ hlt m₀ hm₀
  · rw [fileEpochs_append_job hjobs] at he
    split_ifs at he
    · exact absurd he not_mem_nil
    · exact Nat.lt_succ_of_lt (hinv.epochs_lt i e he)
  · rcases hrun i x hx with hx | ⟨-, -, hxe⟩
    · exact Nat.lt_succ_of_lt (hinv.epoch_lt i x hx)
    · rw [hxe]
      exact Nat.lt_succ_self _

/-- The invariant after a step of the running job `j`: the list has the same memtables, a
memtable that is completed now was completed before or has just been completed by `j`. -/
lemma Inv.jobUpdate (h : JobUpdate s t j job job')
    (hid : t.nextMemtableId = s.nextMemtableId) (hl0 : t.level0 = s.level0)
    (hep : s.nextEpochNumber ≤ t.nextEpochNumber)
    (hnew : ∀ e ∈ job'.fileEpochs, e < t.nextEpochNumber)
    (hids : t.memlist.map MemTable.id = s.memlist.map MemTable.id)
    (hidle : ∀ m ∈ t.memlist, m.flushCompleted = false → m.edit = [])
    (hprog : ∀ m ∈ t.memlist, m.flushCompleted → m.flushInProgress)
    (hrun : ∀ i x, t.running i = some x → ∀ a ∈ x.mems,
      ∃ m ∈ t.memlist, m.id = a ∧ m.flushInProgress ∧ m.flushCompleted = false)
    (hcomp : ∀ m ∈ t.memlist, m.flushCompleted → m ∈ s.memlist ∨ m.fileNumber = j ∧
      m.id ∈ job.mems ∧ job'.phase ≠ .running ∧
      ∀ f ∈ m.edit, f.job = j ∧ f.epochNumber ∈ job'.fileEpochs) : t.Inv := by
  have hmemid : ∀ m ∈ t.memlist, ∃ m₀ ∈ s.memlist, m₀.id = m.id := by
    intro m hm
    have : m.id ∈ s.memlist.map MemTable.id := hids ▸ List.mem_map.2 ⟨m, hm, rfl⟩
    exact List.mem_map.1 this
  -- the running jobs of `t` have the memtables they had in `s`
  have hrunOld : ∀ i x, t.running i = some x →
      ∃ x₀, s.running i = some x₀ ∧ x₀.mems = x.mems ∧ x₀.epochNumber = x.epochNumber := by
    intro i x hx
    by_cases hij : i = j
    · subst hij
      rw [h.running_self] at hx
      split_ifs at hx
      obtain rfl := Option.some.inj hx
      exact ⟨job, h.running, h.mems.symm, h.epoch.symm⟩
    · exact ⟨x, h.running_of_ne hij ▸ hx, rfl, rfl⟩
  refine ⟨hids ▸ hinv.sorted, fun m hm => ?_, hidle, hprog, fun i hi => ?_, fun i a ha => ?_,
    hrun, fun i x k y hx hy hik a ha hay => ?_, fun m hm hc => ?_, fun f hf => ?_,
    fun i e he => ?_, fun i x hx => ?_⟩
  · obtain ⟨m₀, hm₀, hid₀⟩ := hmemid m hm
    rw [hid, ← hid₀]
    exact hinv.fresh m₀ hm₀
  · rw [h.mems_eq]
    exact hinv.mems_ne_nil i (h.length_eq ▸ hi)
  · rw [hid]
    exact hinv.mems_lt i a (h.mems_eq i ▸ ha)
  · obtain ⟨x₀, hx₀, hxm, -⟩ := hrunOld i x hx
    obtain ⟨y₀, hy₀, hym, -⟩ := hrunOld k y hy
    exact hinv.disjoint i x₀ k y₀ hx₀ hy₀ hik a (hxm ▸ ha) (hym ▸ hay)
  · rcases hcomp m hm hc with hm | ⟨hfn, hmem, hphase, hedit⟩
    · obtain ⟨h1, h2, h3, h4⟩ := hinv.completed m hm hc
      have hne := h.ne_of_not_running h2
      refine ⟨h.length_eq ▸ h1, h.running_of_ne hne ▸ h2, h.mems_eq _ ▸ h3, fun f hf => ?_⟩
      obtain ⟨hjob, hepoch⟩ := h4 f hf
      rw [h.fileEpochs_eq, if_neg (hjob ▸ hne)]
      exact ⟨hjob, hepoch⟩
    · refine ⟨?_, ?_, ?_, fun f hf => ?_⟩
      · rw [hfn, h.length_eq]
        exact lt_length h.running
      · rw [hfn, h.running_self, if_neg hphase]
      · rw [hfn, h.mems_eq, FlushState.mems_eq h.running]
        exact hmem
      · obtain ⟨hjob, hepoch⟩ := hedit f hf
        rw [h.fileEpochs_eq, if_pos hjob]
        exact ⟨hjob.trans hfn.symm, hepoch⟩
  · rw [hl0] at hf
    obtain ⟨h1, h2, h3, a, ha, hlt⟩ := hinv.installed f hf
    have hne := h.ne_of_not_running h2
    refine ⟨h.length_eq ▸ h1, h.running_of_ne hne ▸ h2, ?_, a, h.mems_eq _ ▸ ha, fun m hm => ?_⟩
    · rw [h.fileEpochs_eq, if_neg hne]
      exact h3
    · obtain ⟨m₀, hm₀, hid₀⟩ := hmemid m hm
      exact hid₀ ▸ hlt m₀ hm₀
  · rw [h.fileEpochs_eq] at he
    split_ifs at he
    · exact hnew e he
    · exact (hinv.epochs_lt i e he).trans_le hep
  · obtain ⟨x₀, hx₀, -, hxe⟩ := hrunOld i x hx
    exact hxe ▸ (hinv.epoch_lt i x₀ hx₀).trans_le hep

lemma Inv.newEpochNumber (h : s.apply (.newEpochNumber j) = some t) : t.Inv := by
  obtain ⟨job, hrun, rfl⟩ := map_eq_some_iff.1 h
  have hupd := jobUpdate_newEpochNumber hrun
  refine hinv.jobUpdate hupd rfl rfl (Nat.le_succ _) (fun e he => ?_) rfl hinv.idle
    hinv.inProgress (fun i x hx => ?_) (fun m hm _ => .inl hm)
  · rcases mem_append.1 he with he | he
    · exact Nat.lt_succ_of_lt (hinv.epochs_lt j e (fileEpochs_eq hrun ▸ he))
    · obtain rfl := mem_singleton.1 he
      exact Nat.lt_succ_self _
  · by_cases hij : i = j
    · subst hij
      rw [hupd.running_self] at hx
      split_ifs at hx
      obtain rfl := some.inj hx
      exact hinv.running i job hrun
    · exact hinv.running i x (hupd.running_of_ne hij ▸ hx)

/-- A running job ends: its memtables are completed and its files recorded. -/
lemma Inv.finish (hrun : s.running j = some job) {epochs : List ℕ}
    (hep : ∀ e ∈ epochs, e < s.nextEpochNumber) : (s.finish j job epochs).Inv := by
  have hupd := jobUpdate_finish hrun epochs
  have hmem : ∀ m ∈ (s.finish j job epochs).memlist, m ∈ s.memlist ∧ m.id ∉ job.mems ∨
      ∃ m₀ ∈ s.memlist, m₀.id ∈ job.mems ∧ m₀.flushInProgress ∧ m₀.edit = [] ∧
        m = { m₀ with
          flushCompleted := true
          fileNumber := j
          edit := if job.mems.head? = some m₀.id then epochs.map (FlushedFile.mk j)
            else m₀.edit } := by
    intro m hm
    obtain ⟨m₀, hm₀, rfl⟩ := mem_map.1 hm
    by_cases hin : m₀.id ∈ job.mems
    · rw [if_pos hin]
      obtain ⟨m₁, hm₁, hid, hprog, hc⟩ := hinv.running j job hrun m₀.id hin
      obtain rfl := eq_of_mem_of_id_eq hinv hm₁ hm₀ hid
      exact .inr ⟨m₁, hm₀, hin, hprog, hinv.idle m₁ hm₀ hc, rfl⟩
    · rw [if_neg hin]
      exact .inl ⟨hm₀, hin⟩
  refine hinv.jobUpdate hupd rfl rfl le_rfl hep ?_ (fun m hm hc => ?_) (fun m hm hc => ?_)
    (fun i x hx a ha => ?_) (fun m hm hc => ?_)
  · simp only [FlushState.finish, MemTableList.complete, List.map_map]
    refine map_congr_left fun m _ => ?_
    simp only [Function.comp]
    split_ifs <;> rfl
  · rcases hmem m hm with ⟨hm, -⟩ | ⟨m₀, -, -, -, -, rfl⟩
    · exact hinv.idle m hm hc
    · exact absurd hc (by simp)
  · rcases hmem m hm with ⟨hm, -⟩ | ⟨m₀, -, -, hprog, -, rfl⟩
    · exact hinv.inProgress m hm hc
    · exact hprog
  · obtain ⟨hij, hx'⟩ := hupd.other_running (by simp) hx
    obtain ⟨m, hm, rfl, hprog, hc⟩ := hinv.running i x hx' a ha
    refine ⟨m, mem_map.2 ⟨m, hm, if_neg ?_⟩, rfl, hprog, hc⟩
    exact hinv.disjoint i x j job hx' hrun hij m.id ha
  · rcases hmem m hm with ⟨hm, -⟩ | ⟨m₀, -, hin, -, hedit, rfl⟩
    · exact .inl hm
    · refine .inr ⟨rfl, hin, by simp, fun f hf => ?_⟩
      dsimp only at hf
      split_ifs at hf
      · obtain ⟨e, he, rfl⟩ := mem_map.1 hf
        exact ⟨rfl, he⟩
      · rw [hedit] at hf
        exact absurd hf not_mem_nil

lemma Inv.fail (h : s.apply (.fail j) = some t) : t.Inv := by
  obtain ⟨job, hrun, rfl⟩ := map_eq_some_iff.1 h
  obtain ⟨hids, hkeep, hfrom⟩ := rollbackMemtableFlush_spec job.mems s.memlist
  have hupd := jobUpdate_fail hrun
  refine hinv.jobUpdate hupd rfl rfl le_rfl
    (fun e he => hinv.epochs_lt j e (fileEpochs_eq hrun ▸ he)) hids (fun m hm hc => ?_)
    (fun m hm hc => ?_) (fun i x hx a ha => ?_) (fun m hm hc => ?_)
  · rcases hfrom m hm with hm | ⟨m₀, -, rfl⟩
    · exact hinv.idle m hm hc
    · rfl
  · rcases hfrom m hm with hm | ⟨m₀, -, rfl⟩
    · exact hinv.inProgress m hm hc
    · exact absurd hc (by simp [reset])
  · obtain ⟨hij, hx'⟩ := hupd.other_running (by simp) hx
    obtain ⟨m, hm, rfl, hprog, hc⟩ := hinv.running i x hx' a ha
    exact ⟨m, hkeep m hm hc (hinv.disjoint i x j job hx' hrun hij m.id ha), rfl, hprog, hc⟩
  · rcases hfrom m hm with hm | ⟨m₀, -, rfl⟩
    · exact .inl hm
    · exact absurd hc (by simp [reset])

lemma Inv.commit (h : s.apply (.commit written) = some t) : t.Inv := by
  obtain rfl := some.inj h
  obtain ⟨hsub, hkeep, hfrom⟩ := removeOrRestore_spec written s.memlist
  have hmemid : ∀ m ∈ removeOrRestore written s.memlist, ∃ m₀ ∈ s.memlist, m₀.id = m.id := by
    intro m hm
    rcases hfrom m hm with hm | ⟨m₀, hm₀, rfl⟩
    · exact ⟨m, hm, rfl⟩
    · exact ⟨m₀, hm₀, rfl⟩
  refine ⟨hinv.sorted.sublist hsub, fun m hm => ?_, fun m hm hc => ?_,
    fun m hm hc => hinv.inProgress m (mem_of_completed_removeOrRestore hm hc) hc,
    hinv.mems_ne_nil, hinv.mems_lt, fun i x hx a ha => ?_, hinv.disjoint,
    fun m hm hc => hinv.completed m (mem_of_completed_removeOrRestore hm hc) hc,
    fun f hf => ?_, hinv.epochs_lt, hinv.epoch_lt⟩
  · obtain ⟨m₀, hm₀, hid⟩ := hmemid m hm
    exact hid ▸ hinv.fresh m₀ hm₀
  · rcases hfrom m hm with hm | ⟨m₀, -, rfl⟩
    · exact hinv.idle m hm hc
    · rfl
  · obtain ⟨m, hm, hid, hprog, hc⟩ := hinv.running i x hx a ha
    exact ⟨m, hkeep m hm hc, hid, hprog, hc⟩
  · -- a file is old, or comes from the edit of a memtable that leaves the list now
    have hcases : f ∈ s.level0 ∨ written = true ∧ ∃ m ∈ committable s.memlist, f ∈ m.edit := by
      cases written with
      | false => exact .inl hf
      | true =>
        rcases mem_append.1 hf with hf | hf
        · exact .inl hf
        · exact .inr ⟨rfl, mem_batchEdits hf⟩
    rcases hcases with hf | ⟨rfl, m, hm, hfm⟩
    · obtain ⟨h1, h2, h3, a, ha, hlt⟩ := hinv.installed f hf
      refine ⟨h1, h2, h3, a, ha, fun m hm => ?_⟩
      obtain ⟨m₀, hm₀, hid⟩ := hmemid m hm
      exact hid ▸ hlt m₀ hm₀
    · have hmem : m ∈ s.memlist := (takeWhile_sublist _).subset hm
      obtain ⟨h1, h2, h3, h4⟩ := hinv.completed m hmem (mem_takeWhile_imp hm)
      obtain ⟨hjob, hepoch⟩ := h4 f hfm
      refine ⟨hjob ▸ h1, hjob ▸ h2, hepoch, m.id, hjob ▸ h3, fun m' hm' => ?_⟩
      have hpw := hinv.sorted
      rw [← takeWhile_append_dropWhile (p := flushCompleted) (l := s.memlist),
        map_append, pairwise_append] at hpw
      exact hpw.2.2 _ (mem_map.2 ⟨m, hm, rfl⟩) _ (mem_map.2 ⟨m', hm', rfl⟩)

lemma Inv.step {op : FlushOp} (h : s.apply op = some t) : t.Inv := by
  cases op with
  | addMemtable => exact hinv.addMemtable h
  | pickMemTable maxId => exact hinv.pickMemTable h
  | newEpochNumber j => exact hinv.newEpochNumber h
  | finishBuckets j kept =>
    obtain ⟨job, hrun, hfin⟩ := bind_eq_some_iff.1 h
    split_ifs at hfin with hkept
    obtain rfl := some.inj hfin
    refine hinv.finish hrun fun e he => hinv.epochs_lt j e ?_
    rw [fileEpochs_eq hrun]
    exact hkept.2.subset he
  | finishFallback j nonempty =>
    obtain ⟨job, hrun, rfl⟩ := map_eq_some_iff.1 h
    refine hinv.finish hrun fun e he => ?_
    split_ifs at he
    · obtain rfl := mem_singleton.1 he
      exact hinv.epoch_lt j job hrun
    · exact absurd he not_mem_nil
  | fail j => exact hinv.fail h
  | commit written => exact hinv.commit h

end

/-! ### Steps in order keep the epoch numbers in order -/

lemma Active.of_jobUpdate (h : JobUpdate s t j job job') (hl0 : t.level0 = s.level0)
    (hcomp : ∀ m ∈ t.memlist, m.flushCompleted → m ∈ s.memlist ∨ m.fileNumber = j) (hi : t.Active i)
    : s.Active i := by
  rcases hi with (⟨x, hx⟩ | ⟨m, hm, hc, rfl⟩) | ⟨f, hf, rfl⟩
  · by_cases hij : i = j
    · exact .inl (hij ▸ pending_of_running h.running)
    · exact .inl (.inl ⟨x, h.running_of_ne hij ▸ hx⟩)
  · rcases hcomp m hm hc with hm | hj
    · exact .inl (.inr ⟨m, hm, hc, rfl⟩)
    · exact .inl (hj ▸ pending_of_running h.running)
  · exact .inr ⟨f, hl0 ▸ hf, rfl⟩

section

variable (hinv : s.Inv)

include hinv

/-- A job whose files a commit installs was waiting for it. -/
lemma Inv.active_of_commit (h : s.apply (.commit written) = some t)
    (hi : t.Active i) : s.Active i := by
  obtain rfl := some.inj h
  rcases hi with (hrun | ⟨m, hm, hc, rfl⟩) | ⟨f, hf, rfl⟩
  · exact .inl (.inl hrun)
  · exact .inl (.inr ⟨m, mem_of_completed_removeOrRestore hm hc, hc, rfl⟩)
  · cases written with
    | false => exact .inr ⟨f, hf, rfl⟩
    | true =>
      rcases mem_append.1 hf with hf | hf
      · exact .inr ⟨f, hf, rfl⟩
      · obtain ⟨m, hm, hfm⟩ := mem_batchEdits hf
        have hmem : m ∈ s.memlist := (takeWhile_sublist _).subset hm
        have hc : m.flushCompleted := mem_takeWhile_imp hm
        obtain ⟨-, -, -, hedit⟩ := hinv.completed m hmem hc
        exact .inl (.inr ⟨m, hmem, hc, ((hedit f hfm).1).symm⟩)

section

variable (hord : s.Ordered)

include hord

/-- The order survives a change of the running job `j` if its new epoch numbers lie above
those of older jobs and below those of younger ones. -/
lemma Ordered.jobUpdate (h : JobUpdate s t j job job')
    (hact : ∀ i, t.Active i → s.Active i) (hnew : ∀ e ∈ job'.fileEpochs, e ∈ job.fileEpochs ∨
      (∀ i, s.Active i → s.Older i j → ∀ e' ∈ s.fileEpochs i, e' < e) ∧
      ∀ i, s.Pending i → s.Older j i → ∀ e' ∈ s.fileEpochs i, e < e') : t.Ordered := by
  have hjob : s.Active j := .inl (pending_of_running h.running)
  intro i k hi hk hik e he e' he'
  rw [h.older_iff] at hik
  rw [h.fileEpochs_eq] at he he'
  split_ifs at he he' with hij hkj hkj
  · subst hij hkj
    exact absurd hik (hinv.not_older_self (lt_length h.running))
  · subst hij
    rcases hnew e he with he | ⟨-, hyoung⟩
    · exact hord i k hjob (hact k hk) hik e (fileEpochs_eq h.running ▸ he) e' he'
    · rcases hact k hk with hk | hk
      · exact hyoung k hk hik e' he'
      · exact absurd hk (hinv.not_installed_of_older h.running hik)
  · subst hkj
    rcases hnew e' he' with he' | ⟨hold, -⟩
    · exact hord i k (hact i hi) hjob hik e he e' (fileEpochs_eq h.running ▸ he')
    · exact hold i (hact i hi) hik e he
  · exact hord i k (hact i hi) (hact k hk) hik e he e' he'

lemma Ordered.pickMemTable (h : s.apply (.pickMemTable maxId) = some t) : t.Ordered := by
  obtain ⟨ms, -, -, ht⟩ := apply_pickMemTable h
  have hjobs : t.jobs = s.jobs ++ [⟨ms, s.nextEpochNumber, [], .running⟩] := ht ▸ rfl
  have hact : ∀ i, i ≠ s.jobs.length → t.Active i → s.Active i := by
    rintro i hi ((⟨x, hx⟩ | ⟨m, hm, hc, rfl⟩) | ⟨f, hf, rfl⟩)
    · exact .inl (.inl ⟨x, running_append_job hjobs hi ▸ hx⟩)
    · exact .inl (.inr ⟨m, hinv.mem_of_completed_pick (ht ▸ hm) hc, hc, rfl⟩)
    · subst ht
      exact .inr ⟨f, hf, rfl⟩
  -- the new job has no epoch numbers, so only old jobs are compared
  intro i k hi hk hik e he e' he'
  rw [fileEpochs_append_job hjobs] at he he'
  split_ifs at he he' with hil hkl hkl
  · exact absurd he not_mem_nil
  · exact absurd he not_mem_nil
  · exact absurd he' not_mem_nil
  · refine hord i k (hact i hil hi) (hact k hkl hk) (fun a ha b hb => hik a ?_ b ?_) e he e' he'
    · rw [mems_append_job hjobs, if_neg hil]
      exact ha
    · rw [mems_append_job hjobs, if_neg hkl]
      exact hb

lemma Ordered.newEpochNumber
    (hin : s.InOrder (.newEpochNumber j)) (h : s.apply (.newEpochNumber j) = some t) :
    t.Ordered := by
  obtain ⟨job, hrun, rfl⟩ := map_eq_some_iff.1 h
  have hupd := jobUpdate_newEpochNumber hrun
  refine hord.jobUpdate hinv hupd (fun i => Active.of_jobUpdate hupd rfl fun m hm _ => .inl hm)
    fun e he => ?_
  rcases mem_append.1 he with he | he
  · exact .inl he
  · obtain rfl := mem_singleton.1 he
    refine .inr ⟨fun i _ _ e' he' => hinv.epochs_lt i e' he', fun i hi hold e' he' => ?_⟩
    rw [hin i hi hold] at he'
    exact absurd he' not_mem_nil

lemma Ordered.finish (hrun : s.running j = some job)
    {epochs : List ℕ} (hnew : ∀ e ∈ epochs, e ∈ job.fileEpochs ∨
      (∀ i, s.Active i → s.Older i j → ∀ e' ∈ s.fileEpochs i, e' < e) ∧
      ∀ i, s.Pending i → s.Older j i → ∀ e' ∈ s.fileEpochs i, e < e') :
    (s.finish j job epochs).Ordered := by
  have hupd := jobUpdate_finish hrun epochs
  refine hord.jobUpdate hinv hupd (fun i => Active.of_jobUpdate hupd rfl fun m hm _ => ?_) hnew
  obtain ⟨m₀, hm₀, rfl⟩ := mem_map.1 hm
  by_cases hin : m₀.id ∈ job.mems
  · rw [if_pos hin]
    exact .inr rfl
  · rw [if_neg hin]
    exact .inl hm₀

lemma Ordered.fail (h : s.apply (.fail j) = some t) : t.Ordered := by
  obtain ⟨job, hrun, rfl⟩ := map_eq_some_iff.1 h
  obtain ⟨-, -, hfrom⟩ := rollbackMemtableFlush_spec job.mems s.memlist
  have hupd := jobUpdate_fail hrun
  refine hord.jobUpdate hinv hupd
    (fun i => Active.of_jobUpdate hupd rfl fun m hm hc => ?_) fun e he => .inl he
  rcases hfrom m hm with hm | ⟨m₀, -, rfl⟩
  · exact .inl hm
  · exact absurd hc (by simp [reset])

lemma Ordered.commit (h : s.apply (.commit written) = some t) : t.Ordered := by
  have hact : ∀ i, t.Active i → s.Active i := fun i => hinv.active_of_commit h
  obtain rfl := some.inj h
  exact fun i k hi hk => hord i k (hact i hi) (hact k hk)

lemma Ordered.step {op : FlushOp} (hin : s.InOrder op) (h : s.apply op = some t) : t.Ordered := by
  cases op with
  | addMemtable =>
    obtain rfl := some.inj h
    have hact : ∀ i, Active { s with
        memlist := s.memlist ++ [new s.nextMemtableId]
        nextMemtableId := s.nextMemtableId + 1 } i → s.Active i := by
      rintro i ((hrun | ⟨m, hm, hc, rfl⟩) | hinst)
      · exact .inl (.inl hrun)
      · rcases mem_append.1 hm with hm | hm
        · exact .inl (.inr ⟨m, hm, hc, rfl⟩)
        · obtain rfl := mem_singleton.1 hm
          exact absurd hc (by simp [new])
      · exact .inr hinst
    exact fun i k hi hk => hord i k (hact i hi) (hact k hk)
  | pickMemTable maxId => exact hord.pickMemTable hinv h
  | newEpochNumber j => exact hord.newEpochNumber hinv hin h
  | finishBuckets j kept =>
    obtain ⟨job, hrun, hfin⟩ := bind_eq_some_iff.1 h
    split_ifs at hfin with hkept
    obtain rfl := some.inj hfin
    exact hord.finish hinv hrun fun e he => .inl (hkept.2.subset he)
  | finishFallback j nonempty =>
    obtain ⟨job, hrun, rfl⟩ := map_eq_some_iff.1 h
    refine hord.finish hinv hrun fun e he => ?_
    cases nonempty with
    | false => exact absurd he not_mem_nil
    | true =>
      obtain rfl := mem_singleton.1 he
      exact .inr (hin job hrun)
  | fail j => exact hord.fail hinv h
  | commit written => exact hord.commit hinv h

end

end

/-! ### Whole runs -/

lemma ordered_init (n : ℕ) : (init n).Ordered := by
  intro i j _ _ _ e he
  simp [init, fileEpochs] at he

/-- A run whose epoch numbers are taken in order keeps the invariant and the order. -/
lemma inv_ordered_of_run {n : ℕ} (h : Relation.ReflTransGen OrderedStep (init n) s) :
    s.Inv ∧ s.Ordered := by
  induction h with
  | refl => exact ⟨inv_init n, ordered_init n⟩
  | tail _ hstep ih =>
    obtain ⟨op, hin, hop⟩ := hstep
    exact ⟨ih.1.step hop, ih.2.step ih.1 hin hop⟩

/-- In every state of a run whose epoch numbers are taken in order, the files of a job carry
smaller epoch numbers than those of every job over younger memtables, and a read meets the
latter first. -/
theorem flushed_epochs_follow_memtable_age {n : ℕ}
    (h : Relation.ReflTransGen OrderedStep (init n) s) :
    (∀ f ∈ s.level0, ∀ g ∈ s.level0, s.Older f.job g.job → f.epochNumber < g.epochNumber) ∧
    s.searchOrder.Pairwise fun f g => ¬ s.Older f.job g.job := by
  obtain ⟨hinv, hord⟩ := inv_ordered_of_run h
  have hlt : ∀ f ∈ s.level0, ∀ g ∈ s.level0, s.Older f.job g.job →
      f.epochNumber < g.epochNumber := fun f hf g hg hold =>
    hord f.job g.job (.inr ⟨f, hf, rfl⟩) (.inr ⟨g, hg, rfl⟩) hold
      f.epochNumber (hinv.installed f hf).2.2.1 g.epochNumber (hinv.installed g hg).2.2.1
  refine ⟨hlt, ?_⟩
  have hsorted := pairwise_insertionSort
    (fun f g : FlushedFile => g.epochNumber ≤ f.epochNumber) s.level0
  refine hsorted.imp_of_mem fun hf hg hle hold => ?_
  have := hlt _ ((mem_insertionSort _).1 hf) _ ((mem_insertionSort _).1 hg) hold
  omega

/-- The state after a sequence of steps, if they are all enabled. -/
def run (s : FlushState) (ops : List FlushOp) : Option FlushState := ops.foldlM apply s

lemma reaches_of_run {ops : List FlushOp} (h : s.run ops = some t) :
    Relation.ReflTransGen Step s t := by
  induction ops generalizing s with
  | nil => exact some.inj h ▸ .refl
  | cons op ops ih =>
    obtain ⟨u, hu, hrest⟩ := bind_eq_some_iff.1 h
    exact .head ⟨op, hu⟩ (ih hrest)

/-- Job 0 takes two epoch numbers, is committed, and job 1 follows. -/
theorem flushed_epochs_follow_memtable_age_two_jobs :
    ∃ s, Relation.ReflTransGen OrderedStep (init 1) s ∧
      s.level0 = [⟨0, 2⟩, ⟨0, 3⟩, ⟨1, 5⟩] ∧ s.Older 0 1 ∧
      ∀ f ∈ s.level0, ∀ g ∈ s.level0, s.Older f.job g.job → f.epochNumber < g.epochNumber := by
  have hnew : ∀ (s : FlushState) (j : ℕ), s.jobs.length = j + 1 →
      (∀ i < j, ¬ s.Older j i) → s.fileEpochs j = [] ∨ ¬ s.Older j j →
      s.InOrder (.newEpochNumber j) := by
    intro s j hlen hlt heq i _ hold
    rcases lt_trichotomy i j with hij | rfl | hij
    · exact absurd hold (hlt i hij)
    · exact heq.resolve_right fun h => h hold
    · simp [fileEpochs, getElem?_eq_none (show s.jobs.length ≤ i by omega)]
  have hrun : Relation.ReflTransGen OrderedStep (init 1)
      ⟨[], 3, 6, [⟨[1], 1, [2, 3], .finished⟩, ⟨[2], 4, [5], .finished⟩],
        [⟨0, 2⟩, ⟨0, 3⟩, ⟨1, 5⟩]⟩ :=
    .head ⟨.addMemtable, trivial, rfl⟩ <|
    .head ⟨.pickMemTable 1, trivial, rfl⟩ <|
    .head ⟨.newEpochNumber 0, hnew _ 0 rfl (by simp) (.inl rfl), rfl⟩ <|
    .head ⟨.newEpochNumber 0, hnew _ 0 rfl (by simp) (.inr (by decide)), rfl⟩ <|
    .head ⟨.finishBuckets 0 [2, 3], trivial, rfl⟩ <|
    .head ⟨.commit true, trivial, rfl⟩ <|
    .head ⟨.addMemtable, trivial, rfl⟩ <|
    .head ⟨.pickMemTable 2, trivial, rfl⟩ <|
    .head ⟨.newEpochNumber 1, hnew _ 1 rfl (by decide) (.inl rfl), rfl⟩ <|
    .head ⟨.finishBuckets 1 [5], trivial, rfl⟩ <|
    .single ⟨.commit true, trivial, rfl⟩
  exact ⟨_, hrun, rfl, by decide, (flushed_epochs_follow_memtable_age hrun).1⟩

/-- Job 1 over the younger memtable takes its bucket's epoch number before job 0 does: both
are installed, in memtable order, and the older job's file is searched first. -/
theorem younger_flush_gets_smaller_epoch :
    ∃ s, Relation.ReflTransGen Step (init 1) s ∧ s.Older 0 1 ∧
      s.level0 = [⟨0, 4⟩, ⟨1, 3⟩] ∧ s.searchOrder = [⟨0, 4⟩, ⟨1, 3⟩] := by
  refine ⟨⟨[], 3, 5, [⟨[1], 1, [4], .finished⟩, ⟨[2], 2, [3], .finished⟩],
    [⟨0, 4⟩, ⟨1, 3⟩]⟩, ?_, by decide, rfl, by decide⟩
  have hrun : (init 1).run [.addMemtable, .addMemtable, .pickMemTable 1, .pickMemTable 2,
      .newEpochNumber 1, .newEpochNumber 0, .finishBuckets 1 [3], .commit true,
      .finishBuckets 0 [4], .commit true] =
      some ⟨[], 3, 5, [⟨[1], 1, [4], .finished⟩, ⟨[2], 2, [3], .finished⟩],
        [⟨0, 4⟩, ⟨1, 3⟩]⟩ := by decide
  exact reaches_of_run hrun

end FlushState

end BucketLSM
