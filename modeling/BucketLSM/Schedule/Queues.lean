import Mathlib

/-!
# The flush and compaction queues

`DBImpl` (`db/db_impl/db_impl_compaction_flush.cc`) keeps the column families that wait for a
flush or a compaction in two queues. Every function below runs under the DB mutex, so that a run
is a sequence of calls; `BackgroundFlush` gives the mutex up while the memtables are written and
is cut there into two calls.

Column families are values of a type `κ`. What other parts of the DB decide (the state of the
memtables, the limits of the thread pools, the tokens of the limiter) is an input of each call.
An assertion that fails is the result `none`.
-/

namespace BucketLSM

open List Function

/-- `FlushReason` (`include/rocksdb/listener.h`). -/
inductive FlushReason
  | others
  | getLiveFiles
  | shutDown
  | externalFileIngestion
  | manualCompaction
  | writeBufferManager
  | writeBufferFull
  | test
  | deleteFiles
  | autoCompaction
  | manualFlush
  | errorRecovery
  | errorRecoveryRetryFlush
  | walFull
  | catchUpAfterErrorRecovery
deriving DecidableEq, Repr

/-- `DBImpl::FlushRequest`: a reason and a map from column families to memtable ids. -/
structure FlushRequest (κ : Type) where
  flushReason : FlushReason
  cfdToMaxMemIdToPersist : List (κ × ℕ)
  nodup : (cfdToMaxMemIdToPersist.map Prod.fst).Nodup

namespace FlushRequest

variable {κ : Type}

/-- The column families a request names. -/
def cfds (req : FlushRequest κ) : List κ := req.cfdToMaxMemIdToPersist.map Prod.fst

/-- A request for one column family. -/
def single (reason : FlushReason) (cfd : κ) (maxMemId : ℕ) : FlushRequest κ :=
  ⟨reason, [(cfd, maxMemId)], List.nodup_singleton cfd⟩

end FlushRequest

/-- On whose behalf a reference on a column family is held. -/
inductive RefHolder
  | flushQueue
  | compactionQueue
  | others
deriving DecidableEq, Repr

/-- The options of `ImmutableDBOptions` the queues depend on. -/
structure SchedulerOptions where
  atomicFlush : Bool
  useNewFlush : ℤ
deriving DecidableEq, Repr

/-- The part of `DBImpl` and of its column families that the queues are made of. The count
`refs_` of a column family is kept apart by holder. `running` lists, for each thread within
`FlushMemTablesToOutputFiles`, the column families of the request it has popped. -/
structure Scheduler (κ : Type) where
  flushQueue : List (FlushRequest κ)
  queuedForFlush : κ → Bool
  unscheduledFlushes : ℕ
  bgFlushScheduled : ℕ
  running : List (List κ)
  compactionQueue : List κ
  queuedForCompaction : κ → Bool
  unscheduledCompactions : ℕ
  bgCompactionScheduled : ℕ
  bgBottomCompactionScheduled : ℕ
  refs : RefHolder → κ → ℤ
  superVersion : κ → Option ℕ
  rejectNewBackgroundJobs : Bool

namespace Scheduler

variable {κ : Type} [DecidableEq κ]

/-! ## References -/

/-- `refs_` of a column family. -/
def totalRefs (s : Scheduler κ) (cfd : κ) : ℤ :=
  s.refs .flushQueue cfd + s.refs .compactionQueue cfd + s.refs .others cfd

variable (holder : RefHolder) (cfd : κ)

/-- `refs_` changes by `n`. -/
def addRefs (n : ℤ) (s : Scheduler κ) : Scheduler κ :=
  { s with refs := fun h c => if h = holder ∧ c = cfd then s.refs h c + n else s.refs h c }

/-- `ColumnFamilyData::Ref`. -/
def ref (s : Scheduler κ) : Scheduler κ := s.addRefs holder cfd 1

/-- `ColumnFamilyData::UnrefAndTryDelete`. `superVersion` holds the references on the installed
`SuperVersion`, which itself holds one on the column family and gives it up in `Cleanup`. -/
def unrefAndTryDelete (s : Scheduler κ) : Bool × Scheduler κ :=
  let oldRefs := s.totalRefs cfd
  let s := s.addRefs holder cfd (-1)
  if oldRefs = 1 then (true, s)
  else
    match s.superVersion cfd with
    | none => (false, s)
    | some svRefs =>
      if oldRefs = 2 then
        let s := { s with superVersion := Function.update s.superVersion cfd none }
        if svRefs = 1 then (true, s.addRefs .others cfd (-1)) else (false, s)
      else (false, s)

/-- A loop over `UnrefAndTryDelete`. -/
def unrefAll (cfds : List κ) (s : Scheduler κ) : Scheduler κ :=
  cfds.foldl (fun s cfd => (s.unrefAndTryDelete holder cfd).2) s

/-! ## The compaction queue -/

/-- `compaction_queue_.push_back` with its reference and its count. -/
def pushCompaction (s : Scheduler κ) : Scheduler κ :=
  { s.ref .compactionQueue cfd with
    compactionQueue := s.compactionQueue ++ [cfd]
    unscheduledCompactions := s.unscheduledCompactions + 1 }

/-- `DBImpl::AddToCompactionQueue`. -/
def addToCompactionQueue (s : Scheduler κ) : Option (Scheduler κ) :=
  if s.queuedForCompaction cfd then none
  else some { s.pushCompaction cfd with
    queuedForCompaction := Function.update s.queuedForCompaction cfd true }

/-- `DBImpl::EnqueuePendingCompaction`, given what `GetNumGroupsNeedingCompaction` and
`NeedsCompaction` return. -/
def enqueuePendingCompaction (numGroups : ℕ) (needsCompaction : Bool)
    (s : Scheduler κ) : Option (Scheduler κ) :=
  if s.rejectNewBackgroundJobs then some s
  else if s.queuedForCompaction cfd then some s
  else if numGroups = 0 && needsCompaction then s.addToCompactionQueue cfd
  else
    -- one entry for each group, and only the first one sets the flag
    (List.range numGroups).foldlM
      (fun s i => if i = 0 then s.addToCompactionQueue cfd else some (s.pushCompaction cfd)) s

/-- `DBImpl::PopFirstFromCompactionQueue`. -/
def popFirstFromCompactionQueue (s : Scheduler κ) : Option (κ × Scheduler κ) :=
  match s.compactionQueue with
  | [] => none
  | cfd :: rest =>
    if s.queuedForCompaction cfd then
      some (cfd, { s with
        compactionQueue := rest
        queuedForCompaction := Function.update s.queuedForCompaction cfd false })
    else none

/-- The loop of `PickCompactionFromQueue`: the column family picked, the throttled candidates
and the rest of the queue. `requestToken` tells what the limiter answers to each request. -/
def pickLoop (requestToken : ℕ → κ → Bool) : ℕ → List κ → List κ → Option κ × List κ × List κ
  | _, throttled, [] => (none, throttled, [])
  | n, throttled, cfd :: rest =>
    if requestToken n cfd then (some cfd, throttled, rest)
    else pickLoop requestToken (n + 1) (throttled ++ [cfd]) rest

/-- `DBImpl::PickCompactionFromQueue`. -/
def pickCompactionFromQueue (requestToken : ℕ → κ → Bool) (s : Scheduler κ) :
    Option (Option κ × Scheduler κ) :=
  if s.compactionQueue = [] then none
  else
    let r := pickLoop requestToken 0 [] s.compactionQueue
    let queue := r.2.1.reverse.foldl (fun queue cfd => cfd :: queue) r.2.2
    match r.1 with
    | none => some (none, { s with compactionQueue := queue })
    | some cfd => some (some cfd, { s with
        compactionQueue := queue
        queuedForCompaction := Function.update s.queuedForCompaction cfd false })

/-- The picking part of `BackgroundCompaction` for a compaction that is not prepicked. -/
def pickInBackground (hasExclusiveManualCompaction : Bool) (requestToken : ℕ → κ → Bool)
    (s : Scheduler κ) : Option (Option κ × Scheduler κ) :=
  if s.compactionQueue = [] then some (none, s)
  else if hasExclusiveManualCompaction then
    some (none, { s with unscheduledCompactions := s.unscheduledCompactions + 1 })
  else
    match s.pickCompactionFromQueue requestToken with
    | none => none
    | some (none, s) =>
      some (none, { s with unscheduledCompactions := s.unscheduledCompactions + 1 })
    | some (some cfd, s) =>
      let r := s.unrefAndTryDelete .compactionQueue cfd
      some (if r.1 then none else some cfd, r.2)

/-! ## The flush queue -/

/-- The counters `IsFlushPending` reads of a `MemTableList`. -/
structure ImmState where
  flushRequested : Bool
  numFlushNotStarted : ℕ
  minWriteBufferNumberToMerge : ℕ
deriving DecidableEq, Repr

/-- `MemTableList::IsFlushPending`. -/
def ImmState.isFlushPending (imm : ImmState) : Bool :=
  (imm.flushRequested && decide (0 < imm.numFlushNotStarted)) ||
    decide (imm.minWriteBufferNumberToMerge ≤ imm.numFlushNotStarted)

/-- `DBImpl::EnqueuePendingFlush`. -/
def enqueuePendingFlush (opts : SchedulerOptions) (imm : κ → ImmState) (req : FlushRequest κ)
    (s : Scheduler κ) : Option (Bool × Scheduler κ) :=
  if s.rejectNewBackgroundJobs then some (false, s)
  else
    match req.cfds with
    | [] => some (false, s)
    | cfd :: rest =>
      if opts.atomicFlush then
        some (true, { (req.cfds.foldl (fun s cfd => s.ref .flushQueue cfd) s) with
          unscheduledFlushes := s.unscheduledFlushes + 1
          flushQueue := s.flushQueue ++ [req] })
      else if rest ≠ [] then none
      else if !s.queuedForFlush cfd && (imm cfd).isFlushPending then
        some (true, { s.ref .flushQueue cfd with
          queuedForFlush := Function.update s.queuedForFlush cfd true
          unscheduledFlushes := s.unscheduledFlushes + 1
          flushQueue := s.flushQueue ++ [req] })
      else some (false, s)

/-- `DBImpl::PopFirstFromFlushQueue`. -/
def popFirstFromFlushQueue (opts : SchedulerOptions) (s : Scheduler κ) :
    Option (FlushRequest κ × Scheduler κ) :=
  match s.flushQueue with
  | [] => none
  | req :: rest =>
    if opts.atomicFlush then some (req, { s with flushQueue := rest })
    else
      match req.cfds with
      | [cfd] =>
        if s.queuedForFlush cfd then
          some (req, { s with
            flushQueue := rest
            queuedForFlush := Function.update s.queuedForFlush cfd false })
        else none
      | _ => none

/-- What `BackgroundFlush` reads of the rest of the DB. `bgError` tells that `GetBGError` is not
OK, and `shouldRescheduleFlushRequestToRetainUDT` is the function of that name. -/
structure FlushEnv (κ : Type) where
  isBGWorkStopped : Bool
  isRecoveryInProgress : Bool
  shuttingDown : Bool
  bgError : Bool
  shouldRescheduleFlushRequestToRetainUDT : FlushRequest κ → Bool
  l0DelayTriggerCount : κ → ℤ
  level0StopWritesTrigger : κ → ℤ
  mempurgeUsed : κ → Bool
  isDropped : κ → Bool
  imm : κ → ImmState

/-- How `BackgroundFlush` returns; `flushing` tells that it has called
`FlushMemTablesToOutputFiles`. -/
inductive FlushStatus
  | ok
  | shutdownInProgress
  | bgError
  | tryAgain
  | flushing
deriving DecidableEq, Repr

/-- The result of `BackgroundFlush` and its out parameters `reason` and
`flush_rescheduled_to_retain_udt`. -/
structure FlushOutcome where
  status : FlushStatus
  reason : FlushReason
  rescheduled : Bool
deriving DecidableEq, Repr

namespace FlushEnv

variable (env : FlushEnv κ)

/-- The checks before the queue is read. -/
def refuses : Option FlushStatus :=
  if !env.isBGWorkStopped then if env.shuttingDown then some .shutdownInProgress else none
  else if !env.isRecoveryInProgress && env.bgError then some .bgError
  else none

/-- A flush that is not part of the recovery is dropped while background work is stopped. -/
def dropsRequest (req : FlushRequest κ) : Bool :=
  env.bgError && env.isBGWorkStopped && decide (req.flushReason ≠ .errorRecovery) &&
    decide (req.flushReason ≠ .errorRecoveryRetryFlush)

/-- The request waits so that user-defined timestamps are retained. -/
def retainsUDT (opts : SchedulerOptions) (req : FlushRequest κ) : Bool :=
  !opts.atomicFlush && env.shouldRescheduleFlushRequestToRetainUDT req

/-- `l0stall`: how many times over level 0 has reached its stop trigger. -/
def l0stall (cfd : κ) : ℤ :=
  (env.l0DelayTriggerCount cfd).tdiv (env.level0StopWritesTrigger cfd)

/-- The request waits in bucket mode, because its first column family has too many files in
level 0. -/
def stalls (opts : SchedulerOptions) (req : FlushRequest κ) : Bool :=
  match req.cfds with
  | [] => false
  | cfd :: _ => decide (opts.useNewFlush ≠ 0) && decide (env.l0stall cfd ≠ 0)

/-- The column family is flushed: it has not been dropped and its memtables are pending, after
`FlushRequested` if a mempurge has left silent ones. -/
def flushes (cfd : κ) : Bool :=
  let imm := env.imm cfd
  let imm := if env.mempurgeUsed cfd then { imm with flushRequested := true } else imm
  !env.isDropped cfd && imm.isFlushPending

end FlushEnv

/-- `BackgroundFlush` for a request just popped. The result `none` of the inner option stands for
another round of the loop. -/
def serve (opts : SchedulerOptions) (env : FlushEnv κ) (req : FlushRequest κ) (s : Scheduler κ) :
    Option (Option FlushOutcome × Scheduler κ) :=
  if env.dropsRequest req then
    some (some ⟨.bgError, req.flushReason, false⟩, s.unrefAll .flushQueue req.cfds)
  else if env.retainsUDT opts req then
    match req.cfds with
    | [cfd] =>
      let r := s.unrefAndTryDelete .flushQueue cfd
      if r.1 then some (some ⟨.ok, .others, false⟩, r.2)
      else (r.2.enqueuePendingFlush opts env.imm req).map fun e =>
        (some ⟨.tryAgain, req.flushReason, true⟩, e.2)
    | _ => none
  else if env.stalls opts req then
    (s.enqueuePendingFlush opts env.imm req).map fun e =>
      (some ⟨.tryAgain, req.flushReason, true⟩, e.2)
  else
    let bgFlushArgs := req.cfds.filter env.flushes
    let columnFamiliesNotToFlush := req.cfds.filter fun cfd => !env.flushes cfd
    if bgFlushArgs ≠ [] then
      some (some ⟨.flushing, req.flushReason, false⟩,
        { s with running := s.running ++ [bgFlushArgs ++ columnFamiliesNotToFlush] })
    else if columnFamiliesNotToFlush ≠ [] then
      some (some ⟨.ok, .others, false⟩, s.unrefAll .flushQueue columnFamiliesNotToFlush)
    else some (none, s)

/-- The loop of `BackgroundFlush`, for at most `n` requests. -/
def backgroundFlushLoop (opts : SchedulerOptions) (env : FlushEnv κ) :
    ℕ → Scheduler κ → Option (FlushOutcome × Scheduler κ)
  | 0, s => some (⟨.ok, .others, false⟩, s)
  | n + 1, s =>
    if s.flushQueue = [] then some (⟨.ok, .others, false⟩, s)
    else
      match s.popFirstFromFlushQueue opts with
      | none => none
      | some (req, s) =>
        match s.serve opts env req with
        | none => none
        | some (some outcome, s) => some (outcome, s)
        | some (none, s) => backgroundFlushLoop opts env n s

/-- `DBImpl::BackgroundFlush` up to the call of `FlushMemTablesToOutputFiles`. -/
def backgroundFlush (opts : SchedulerOptions) (env : FlushEnv κ) (s : Scheduler κ) :
    Option (FlushOutcome × Scheduler κ) :=
  match env.refuses with
  | some status => some (⟨status, .others, false⟩, s)
  | none => s.backgroundFlushLoop opts env s.flushQueue.length

/-- `DBImpl::BackgroundFlush` of the `i`-th running flush after `FlushMemTablesToOutputFiles`. -/
def finishFlush (i : ℕ) (s : Scheduler κ) : Scheduler κ :=
  match s.running[i]? with
  | none => s
  | some cfds => { s.unrefAll .flushQueue cfds with running := s.running.eraseIdx i }

/-! ## Scheduling and shutdown -/

/-- What `MaybeScheduleFlushOrCompaction` reads of the rest of the DB. -/
structure ScheduleEnv where
  openedSuccessfully : Bool
  bgWorkPaused : Bool
  isBGWorkStopped : Bool
  isRecoveryInProgress : Bool
  shuttingDown : Bool
  isFlushPoolEmpty : Bool
  bgCompactionPaused : Bool
  hasExclusiveManualCompaction : Bool
  maxFlushes : ℕ
  maxCompactions : ℕ
deriving DecidableEq, Repr

/-- A loop that schedules threads while there is work and room; `busy` threads are counted
against the limit as well. -/
def scheduleLoop (limit busy : ℕ) : ℕ → ℕ → ℕ × ℕ
  | scheduled, 0 => (scheduled, 0)
  | scheduled, unscheduled + 1 =>
    if scheduled + busy < limit then scheduleLoop limit busy (scheduled + 1) unscheduled
    else (scheduled, unscheduled + 1)

/-- `DBImpl::MaybeScheduleFlushOrCompaction`. -/
def maybeScheduleFlushOrCompaction (env : ScheduleEnv) (s : Scheduler κ) : Scheduler κ :=
  if !env.openedSuccessfully || env.bgWorkPaused then s
  else if env.isBGWorkStopped && !env.isRecoveryInProgress then s
  else if env.shuttingDown then s
  else
    let busy := if env.isFlushPoolEmpty then s.bgCompactionScheduled else 0
    let f := scheduleLoop env.maxFlushes busy s.bgFlushScheduled s.unscheduledFlushes
    let s := { s with bgFlushScheduled := f.1, unscheduledFlushes := f.2 }
    if env.bgCompactionPaused || env.isBGWorkStopped || env.hasExclusiveManualCompaction then s
    else
      let c := scheduleLoop env.maxCompactions s.bgBottomCompactionScheduled
        s.bgCompactionScheduled s.unscheduledCompactions
      { s with bgCompactionScheduled := c.1, unscheduledCompactions := c.2 }

/-- One round of the loop of `CloseHelper` over `flush_queue_`. -/
def closePopFlush (opts : SchedulerOptions) (s : Scheduler κ) : Option (Scheduler κ) :=
  (s.popFirstFromFlushQueue opts).map fun r => r.2.unrefAll .flushQueue r.1.cfds

/-- One round of the loop of `CloseHelper` over `compaction_queue_`. -/
def closePopCompaction (s : Scheduler κ) : Option (Scheduler κ) :=
  s.popFirstFromCompactionQueue.map fun r => (r.2.unrefAndTryDelete .compactionQueue r.1).2

/-- The loop of `CloseHelper` over `flush_queue_`, for at most `n` rounds. -/
def closeFlushes (opts : SchedulerOptions) : ℕ → Scheduler κ → Option (Scheduler κ)
  | 0, s => some s
  | n + 1, s =>
    if s.flushQueue = [] then some s
    else (s.closePopFlush opts).bind (closeFlushes opts n)

/-- The loop of `CloseHelper` over `compaction_queue_`, for at most `n` rounds. -/
def closeCompactions : ℕ → Scheduler κ → Option (Scheduler κ)
  | 0, s => some s
  | n + 1, s =>
    if s.compactionQueue = [] then some s
    else s.closePopCompaction.bind (closeCompactions n)

/-- The part of `DBImpl::CloseHelper` that drains the two queues. -/
def closeHelper (opts : SchedulerOptions) (s : Scheduler κ) : Option (Scheduler κ) :=
  (s.closeFlushes opts s.flushQueue.length).bind fun s =>
    s.closeCompactions s.compactionQueue.length

/-! ## Runs -/

/-- The queues of a DB that has just been opened, with the references others hold. -/
def opened (refs : κ → ℤ) (superVersion : κ → Option ℕ) : Scheduler κ where
  flushQueue := []
  queuedForFlush _ := false
  unscheduledFlushes := 0
  bgFlushScheduled := 0
  running := []
  compactionQueue := []
  queuedForCompaction _ := false
  unscheduledCompactions := 0
  bgCompactionScheduled := 0
  bgBottomCompactionScheduled := 0
  refs
    | .others => refs
    | _ => fun _ => 0
  superVersion := superVersion
  rejectNewBackgroundJobs := false

/-- The calls on the queues. The last five change what the rest of the DB owns: the references
others hold, the installed `SuperVersion`, the counts of scheduled threads, and
`reject_new_background_jobs_`. -/
inductive Call (κ : Type)
  | enqueuePendingFlush (imm : κ → ImmState) (req : FlushRequest κ)
  | backgroundFlush (env : FlushEnv κ)
  | finishFlush (i : ℕ)
  | enqueuePendingCompaction (cfd : κ) (numGroups : ℕ) (needsCompaction : Bool)
  | pickInBackground (hasExclusiveManualCompaction : Bool) (requestToken : ℕ → κ → Bool)
  | popFirstFromCompactionQueue
  | maybeScheduleFlushOrCompaction (env : ScheduleEnv)
  | closeHelper
  | ref (cfd : κ)
  | unrefAndTryDelete (cfd : κ)
  | installSuperVersion (cfd : κ) (superVersion : Option ℕ)
  | setScheduled (bgFlushScheduled bgCompactionScheduled bgBottomCompactionScheduled : ℕ)
  | rejectNewBackgroundJobs (reject : Bool)

/-- The effect of a call; `none` if an assertion fails. -/
def Call.apply (opts : SchedulerOptions) (s : Scheduler κ) : Call κ → Option (Scheduler κ)
  | .enqueuePendingFlush imm req => (s.enqueuePendingFlush opts imm req).map Prod.snd
  | .backgroundFlush env => (s.backgroundFlush opts env).map Prod.snd
  | .finishFlush i => some (s.finishFlush i)
  | .enqueuePendingCompaction cfd n needs => s.enqueuePendingCompaction cfd n needs
  | .pickInBackground exclusive requestToken =>
    (s.pickInBackground exclusive requestToken).map Prod.snd
  | .popFirstFromCompactionQueue =>
    if s.compactionQueue = [] then some s else s.closePopCompaction
  | .maybeScheduleFlushOrCompaction env => some (s.maybeScheduleFlushOrCompaction env)
  | .closeHelper => s.closeHelper opts
  | .ref cfd => some (s.ref .others cfd)
  | .unrefAndTryDelete cfd => some (s.unrefAndTryDelete .others cfd).2
  | .installSuperVersion cfd superVersion =>
    some { s with superVersion := Function.update s.superVersion cfd superVersion }
  | .setScheduled f c b =>
    some { s with
      bgFlushScheduled := f, bgCompactionScheduled := c, bgBottomCompactionScheduled := b }
  | .rejectNewBackgroundJobs reject => some { s with rejectNewBackgroundJobs := reject }

/-- A call of one of the functions. -/
def Step (opts : SchedulerOptions) (s s' : Scheduler κ) : Prop :=
  ∃ call : Call κ, call.apply opts s = some s'

/-! ## What each function changes -/

variable {s s' : Scheduler κ}

/-- The references on behalf of the queues change only for the holder and the column family
named; the `SuperVersion`'s own reference is one of the others'. -/
lemma unrefAndTryDelete_spec (s : Scheduler κ) :
    ∃ refs superVersion, (s.unrefAndTryDelete holder cfd).2 =
        { s with refs := refs, superVersion := superVersion } ∧ ∀ h ≠ RefHolder.others, ∀ c,
        refs h c = s.refs h c - if h = holder ∧ c = cfd then 1 else 0 := by
  have hdecr : ∀ h c, (s.addRefs holder cfd (-1)).refs h c =
      s.refs h c - if h = holder ∧ c = cfd then 1 else 0 := by
    intro h c
    unfold addRefs
    dsimp only
    split_ifs <;> omega
  unfold unrefAndTryDelete
  dsimp only
  by_cases hone : s.totalRefs cfd = 1
  · rw [if_pos hone]
    exact ⟨_, _, rfl, fun h _ => hdecr h⟩
  · rw [if_neg hone]
    cases (s.addRefs holder cfd (-1)).superVersion cfd with
    | none => exact ⟨_, _, rfl, fun h _ => hdecr h⟩
    | some svRefs =>
      dsimp only
      split_ifs
      · refine ⟨_, _, rfl, fun h hother c => ?_⟩
        rw [if_neg fun hc => hother hc.1]
        exact hdecr h c
      · exact ⟨_, _, rfl, fun h _ => hdecr h⟩
      · exact ⟨_, _, rfl, fun h _ => hdecr h⟩

lemma unrefAll_spec (cfds : List κ) (s : Scheduler κ) :
    ∃ refs superVersion, s.unrefAll holder cfds =
        { s with refs := refs, superVersion := superVersion } ∧ ∀ h ≠ RefHolder.others, ∀ c,
        refs h c = s.refs h c - if h = holder then (cfds.count c : ℤ) else 0 := by
  induction cfds generalizing s with
  | nil => exact ⟨s.refs, s.superVersion, rfl, fun h _ c => by simp⟩
  | cons cfd cfds ih =>
    obtain ⟨refs₁, sv₁, heq₁, hrefs₁⟩ := s.unrefAndTryDelete_spec holder cfd
    obtain ⟨refs₂, sv₂, heq₂, hrefs₂⟩ := ih (s.unrefAndTryDelete holder cfd).2
    refine ⟨refs₂, sv₂, heq₂.trans (by rw [heq₁]), fun h hother c => ?_⟩
    rw [hrefs₂ h hother c, heq₁]
    dsimp only
    rw [hrefs₁ h hother c, count_cons]
    by_cases hholder : h = holder
    · by_cases hc : c = cfd
      · subst hc
        simp [hholder]
        ring
      · simp [hholder, hc, Ne.symm hc]
    · simp [hholder]

lemma refs_foldl_ref (cfds : List κ) (s : Scheduler κ) :
    ∃ refs, cfds.foldl (fun s cfd => s.ref .flushQueue cfd) s = { s with refs := refs } ∧
      ∀ h c, refs h c = s.refs h c + if h = .flushQueue then (cfds.count c : ℤ) else 0 := by
  induction cfds generalizing s with
  | nil => exact ⟨s.refs, rfl, fun h c => by simp⟩
  | cons cfd cfds ih =>
    obtain ⟨refs, heq, hrefs⟩ := ih (s.ref .flushQueue cfd)
    refine ⟨refs, heq, fun h c => ?_⟩
    rw [hrefs h c, count_cons]
    unfold ref addRefs
    by_cases hholder : h = .flushQueue
    · by_cases hc : c = cfd
      · subst hc
        simp [hholder]
        ring
      · simp [hholder, hc, Ne.symm hc]
    · simp [hholder]

variable {opts : SchedulerOptions} {req : FlushRequest κ}

/-- `EnqueuePendingFlush` either does nothing or appends the request and takes a reference on
each column family it names. -/
lemma enqueuePendingFlush_spec {imm : κ → ImmState} {enqueued : Bool}
    (h : s.enqueuePendingFlush opts imm req = some (enqueued, s')) : (enqueued = false ∧ s' = s) ∨
    (enqueued = true ∧ req.cfds ≠ [] ∧ ∃ queued unscheduled refs, s' = { s with
        flushQueue := s.flushQueue ++ [req], queuedForFlush := queued
        unscheduledFlushes := unscheduled, refs := refs } ∧
      ∀ h c, refs h c = s.refs h c + if h = .flushQueue then (req.cfds.count c : ℤ) else 0) := by
  unfold enqueuePendingFlush at h
  cases hcfds : req.cfds with
  | nil =>
    simp only [hcfds] at h
    split_ifs at h <;> cases h <;> exact .inl ⟨rfl, rfl⟩
  | cons cfd rest =>
    obtain ⟨refs, heq, hrefs⟩ := refs_foldl_ref req.cfds s
    rw [hcfds] at heq hrefs
    simp only [hcfds, heq] at h
    split_ifs at h with hreject hatomic hrest hpending
    · cases h
      exact .inl ⟨rfl, rfl⟩
    · cases h
      exact .inr ⟨rfl, cons_ne_nil _ _, _, _, refs, rfl, hrefs⟩
    · cases h
      -- a request of a plain flush names one column family
      obtain rfl : rest = [] := not_not.1 hrest
      cases heq
      exact .inr ⟨rfl, cons_ne_nil _ _, _, _, _, rfl, hrefs⟩
    · cases h
      exact .inl ⟨rfl, rfl⟩

lemma popFirstFromFlushQueue_spec (h : s.popFirstFromFlushQueue opts = some (req, s')) :
    ∃ rest queued, s.flushQueue = req :: rest ∧
      s' = { s with flushQueue := rest, queuedForFlush := queued } := by
  unfold popFirstFromFlushQueue at h
  cases hqueue : s.flushQueue with
  | nil =>
    simp only [hqueue] at h
    cases h
  | cons head rest =>
    simp only [hqueue] at h
    by_cases hatomic : opts.atomicFlush = true
    · rw [if_pos hatomic] at h
      cases h
      exact ⟨rest, _, rfl, rfl⟩
    · rw [if_neg hatomic] at h
      split at h
      · split_ifs at h
        cases h
        exact ⟨rest, _, rfl, rfl⟩
      · cases h

/-- The exits of `BackgroundFlush` for the request it has popped. -/
inductive Exit (opts : SchedulerOptions) (env : FlushEnv κ) (req : FlushRequest κ)
    (s : Scheduler κ) : Option FlushOutcome → Scheduler κ → Prop
  | dropped : env.dropsRequest req = true →
      Exit opts env req s (some ⟨.bgError, req.flushReason, false⟩)
        (s.unrefAll .flushQueue req.cfds)
  | deleted {cfd : κ} : env.retainsUDT opts req = true → req.cfds = [cfd] →
      Exit opts env req s (some ⟨.ok, .others, false⟩) (s.unrefAndTryDelete .flushQueue cfd).2
  | retained {cfd : κ} {enqueued : Bool} {s' : Scheduler κ} : env.retainsUDT opts req = true →
      req.cfds = [cfd] →
      (s.unrefAndTryDelete .flushQueue cfd).2.enqueuePendingFlush opts env.imm req =
        some (enqueued, s') → Exit opts env req s (some ⟨.tryAgain, req.flushReason, true⟩) s'
  | stalled {enqueued : Bool} {s' : Scheduler κ} : env.dropsRequest req = false →
      env.retainsUDT opts req = false → env.stalls opts req = true →
      s.enqueuePendingFlush opts env.imm req = some (enqueued, s') →
      Exit opts env req s (some ⟨.tryAgain, req.flushReason, true⟩) s'
  | flushing : env.stalls opts req = false → Exit opts env req s (some ⟨.flushing, req.flushReason, false⟩)
      { s with running := s.running ++
        [req.cfds.filter env.flushes ++ req.cfds.filter fun cfd => !env.flushes cfd] }
  | skipped : env.stalls opts req = false → req.cfds.filter env.flushes = [] →
      Exit opts env req s (some ⟨.ok, .others, false⟩)
        (s.unrefAll .flushQueue (req.cfds.filter fun cfd => !env.flushes cfd))
  | empty : req.cfds = [] → Exit opts env req s none s

lemma exit_of_serve {env : FlushEnv κ} {outcome : Option FlushOutcome}
    (h : s.serve opts env req = some (outcome, s')) : Exit opts env req s outcome s' := by
  unfold serve at h
  by_cases hdrop : env.dropsRequest req = true
  · rw [if_pos hdrop] at h
    cases h
    exact .dropped hdrop
  rw [if_neg hdrop] at h
  by_cases hretain : env.retainsUDT opts req = true
  · rw [if_pos hretain] at h
    split at h
    · rename_i cfd hcfds
      dsimp only at h
      split_ifs at h
      · cases h
        exact .deleted hretain hcfds
      · obtain ⟨⟨enqueued, s₁⟩, henqueue, h⟩ := Option.map_eq_some_iff.1 h
        cases h
        exact .retained hretain hcfds henqueue
    · cases h
  rw [if_neg hretain] at h
  by_cases hstall : env.stalls opts req = true
  · rw [if_pos hstall] at h
    obtain ⟨⟨enqueued, s₁⟩, henqueue, h⟩ := Option.map_eq_some_iff.1 h
    cases h
    exact .stalled (Bool.eq_false_iff.2 hdrop) (Bool.eq_false_iff.2 hretain) hstall henqueue
  rw [if_neg hstall] at h
  dsimp only at h
  by_cases hargs : req.cfds.filter env.flushes = []
  · rw [if_neg (not_not.2 hargs)] at h
    by_cases hnot : (req.cfds.filter fun cfd => !env.flushes cfd) = []
    · rw [if_neg (not_not.2 hnot)] at h
      cases h
      refine .empty (eq_nil_iff_forall_not_mem.2 fun cfd hcfd => ?_)
      cases hflushes : env.flushes cfd with
      | true => exact not_mem_nil (hargs ▸ mem_filter.2 ⟨hcfd, hflushes⟩)
      | false => exact not_mem_nil (hnot ▸ mem_filter.2 ⟨hcfd, by simp [hflushes]⟩)
    · rw [if_pos hnot] at h
      cases h
      exact .skipped (Bool.eq_false_iff.2 hstall) hargs
  · rw [if_pos hargs] at h
    cases h
    exact .flushing (Bool.eq_false_iff.2 hstall)

/-- The rule for `BackgroundFlush`: `P` holds before each round of its loop, and `Q` when it
returns. -/
lemma backgroundFlush_rule {env : FlushEnv κ} {P Q : Scheduler κ → Prop}
    (hdone : ∀ s, env.refuses ≠ none ∨ s.flushQueue = [] → P s → Q s)
    (hnext : ∀ s req s₁ s₂, P s → s.popFirstFromFlushQueue opts = some (req, s₁) →
      Exit opts env req s₁ none s₂ → P s₂)
    (hexit : env.refuses = none → ∀ s req s₁ outcome s₂, P s →
      s.popFirstFromFlushQueue opts = some (req, s₁) →
      Exit opts env req s₁ (some outcome) s₂ → Q s₂) {outcome : FlushOutcome} (hs : P s)
    (h : s.backgroundFlush opts env = some (outcome, s')) : Q s' := by
  have hloop : env.refuses = none → ∀ (n : ℕ) (s s' : Scheduler κ), s.flushQueue.length ≤ n →
      P s → s.backgroundFlushLoop opts env n = some (outcome, s') → Q s' := by
    intro hrefuses n
    induction n with
    | zero =>
      intro s s' hn hs h
      cases h
      exact hdone s (.inr (eq_nil_of_length_eq_zero (Nat.le_zero.1 hn))) hs
    | succ n ih =>
      intro s s' hn hs h
      unfold backgroundFlushLoop at h
      by_cases hqueue : s.flushQueue = []
      · rw [if_pos hqueue] at h
        cases h
        exact hdone s (.inr hqueue) hs
      · rw [if_neg hqueue] at h
        split at h
        · cases h
        · rename_i req s₁ hpop
          split at h
          · cases h
          · rename_i outcome₁ s₂ hserve
            cases h
            exact hexit hrefuses s req s₁ outcome s' hs hpop (exit_of_serve hserve)
          · rename_i s₂ hserve
            have hround := exit_of_serve hserve
            refine ih s₂ s' ?_ (hnext s req s₁ s₂ hs hpop hround) h
            -- the loop goes on only with a request that names nothing, and pops it
            obtain ⟨rest, queued, hcons, rfl⟩ := popFirstFromFlushQueue_spec hpop
            cases hround
            rw [hcons, length_cons] at hn
            exact Nat.le_of_succ_le_succ hn
  unfold backgroundFlush at h
  cases hrefuses : env.refuses with
  | some status =>
    rw [hrefuses] at h
    cases h
    exact hdone s (.inl (by simp [hrefuses])) hs
  | none =>
    rw [hrefuses] at h
    exact hloop hrefuses _ _ _ (Nat.le_refl _) hs h

end Scheduler

end BucketLSM
