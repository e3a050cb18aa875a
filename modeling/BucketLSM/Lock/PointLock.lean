import BucketLSM.Lib.Keyed
import Mathlib

/-!
# Point locks

`PointLockManager` (`utilities/transactions/lock/point/point_lock_manager.cc`) keeps, for each
locked key of a column family, the transactions that hold the lock. A lock is exclusive or shared,
and it can be stolen once it is expired. The steps here are the calls that run under the mutex of a
stripe, the passing of time, and what transactions do to the registry of those that expire.
-/

namespace BucketLSM.Lock

open List

variable {K : Type} [DecidableEq K]

/-- `LockInfo`. An expiration time of zero means that the lock does not expire. -/
structure LockInfo where
  exclusive : Bool
  txnIds : List ℕ
  expirationTime : ℕ
deriving DecidableEq

/-- `Transaction::TransactionState`. -/
inductive TransactionState
  | started
  | awaitingPrepare
  | prepared
  | awaitingCommit
  | committed
  | awaitingRollback
  | rolledBack
  | locksStolen
deriving DecidableEq

/-- A lock map and what it reads: `expirable_transactions_map_`, with the states of its
transactions, and the clock. The keys of all stripes are in one list. -/
structure LockState (K : Type) where
  keys : List (K × LockInfo) := []
  lockCnt : ℤ := 0
  expirable : ℕ → Option TransactionState := fun _ => none
  now : ℕ := 0

namespace LockState

/-- The lock of a key. -/
def find (s : LockState K) (key : K) : Option LockInfo :=
  (s.keys.find? fun entry => entry.1 = key).map Prod.snd

/-- The lock of a key that is locked is changed. -/
def setLock (s : LockState K) (key : K) (info : LockInfo) : LockState K :=
  { s with keys := s.keys.map fun entry => if entry.1 = key then (key, info) else entry }

/-- The lock of a key is erased. -/
def eraseLock (s : LockState K) (key : K) : LockState K :=
  { s with keys := s.keys.filter fun entry => entry.1 ≠ key }

end LockState

/-! ## Expired locks -/

/-- `TryStealingExpiredTransactionLocks`. A transaction that is not in the map has expired, or is
one that never expires. -/
def tryStealingExpiredTransactionLocks (id : ℕ) (expirable : ℕ → Option TransactionState) :
    Bool × (ℕ → Option TransactionState) :=
  match expirable id with
  | none => (true, expirable)
  | some .started => (true, Function.update expirable id (some .locksStolen))
  | some _ => (false, expirable)

/-- The loop of `IsLockExpired`: the locks of all other holders are stolen, until one cannot be. -/
def stealAll (txnId : ℕ) : List ℕ → (ℕ → Option TransactionState) →
    Bool × (ℕ → Option TransactionState)
  | [], expirable => (true, expirable)
  | id :: ids, expirable =>
    if txnId = id then stealAll txnId ids expirable
    else
      match tryStealingExpiredTransactionLocks id expirable with
      | (true, expirable) => stealAll txnId ids expirable
      | failed => failed

/-- What `IsLockExpired` returns, with `expire_time` and the registry after it. -/
structure Expired where
  expired : Bool
  expireTime : ℕ
  expirable : ℕ → Option TransactionState

/-- `IsLockExpired`. -/
def isLockExpired (txnId : ℕ) (info : LockInfo) (now expireTime : ℕ)
    (expirable : ℕ → Option TransactionState) : Expired :=
  if info.expirationTime = 0 then ⟨false, 0, expirable⟩
  else if now < info.expirationTime then ⟨false, info.expirationTime, expirable⟩
  else
    let stolen := stealAll txnId info.txnIds expirable
    ⟨stolen.1, if stolen.1 then expireTime else 0, stolen.2⟩

/-! ## Locking and unlocking -/

/-- The statuses of `AcquireLocked`. -/
inductive LockStatus
  | ok
  | timedOut
  | lockLimit
deriving DecidableEq

/-- What `AcquireLocked` returns, with `expire_time` and `txn_ids`. -/
structure Acquired where
  status : LockStatus
  expireTime : ℕ
  waitIds : List ℕ
deriving DecidableEq

/-- `max_num_locks_`, and the expiration times of the transactions. -/
structure LockOptions where
  maxNumLocks : ℤ
  expiration : ℕ → ℕ

/-- The lock that a transaction asks for. -/
def LockOptions.request (opts : LockOptions) (txnId : ℕ) (exclusive : Bool) : LockInfo :=
  ⟨exclusive, [txnId], opts.expiration txnId⟩

/-- `AcquireLocked`. -/
def acquireLocked (opts : LockOptions) (key : K) (txnId : ℕ) (exclusive : Bool) (expireTime : ℕ)
    (s : LockState K) : Acquired × LockState K :=
  let request := opts.request txnId exclusive
  match s.find key with
  | some info =>
    if info.exclusive || request.exclusive then
      if info.txnIds = [txnId] then
        -- the only holder is the transaction itself
        (⟨.ok, expireTime, []⟩, s.setLock key
          { info with exclusive := request.exclusive, expirationTime := request.expirationTime })
      else
        let expired := isLockExpired txnId info s.now expireTime s.expirable
        let s := { s with expirable := expired.expirable }
        if expired.expired then (⟨.ok, expired.expireTime, []⟩, s.setLock key request)
        else (⟨.timedOut, expired.expireTime, info.txnIds.filter (· ≠ txnId)⟩, s)
    else
      (⟨.ok, expireTime, []⟩, s.setLock key
        { info with
          txnIds := info.txnIds ++ [txnId]
          expirationTime := max info.expirationTime request.expirationTime })
  | none =>
    if 0 < opts.maxNumLocks ∧ opts.maxNumLocks ≤ s.lockCnt then (⟨.lockLimit, expireTime, []⟩, s)
    else
      (⟨.ok, expireTime, []⟩,
        { s with
          keys := (key, request) :: s.keys
          lockCnt := if opts.maxNumLocks ≠ 0 then s.lockCnt + 1 else s.lockCnt })

/-- An entry is overwritten with the last one, and the last one is taken away. -/
def swapRemove (i : ℕ) (ids : List ℕ) : List ℕ := (ids.set i (ids.getLastD 0)).dropLast

/-- `UnLockKey`. -/
def unLockKey (opts : LockOptions) (key : K) (txnId : ℕ) (s : LockState K) : LockState K :=
  match s.find key with
  | some info =>
    match info.txnIds.idxOf? txnId with
    | some i =>
      let s := if info.txnIds.length = 1 then s.eraseLock key
        else s.setLock key { info with txnIds := swapRemove i info.txnIds }
      { s with lockCnt := if 0 < opts.maxNumLocks then s.lockCnt - 1 else s.lockCnt }
    | none => s
  | none => s

/-! ## Runs -/

/-- A step: a call, the passing of time, or a change of a transaction in the registry. -/
inductive LockStep (K : Type)
  | acquire (key : K) (txnId : ℕ) (exclusive : Bool) (expireTime : ℕ)
  | unLock (key : K) (txnId : ℕ)
  | tick (micros : ℕ)
  | transaction (id : ℕ) (state : Option TransactionState)

/-- The state after a step. -/
def step (opts : LockOptions) (s : LockState K) : LockStep K → LockState K
  | .acquire key txnId exclusive expireTime =>
    (acquireLocked opts key txnId exclusive expireTime s).2
  | .unLock key txnId => unLockKey opts key txnId s
  | .tick micros => { s with now := s.now + micros }
  | .transaction id state => { s with expirable := Function.update s.expirable id state }

/-- The state after some steps on an empty lock map. -/
def run (opts : LockOptions) (steps : List (LockStep K)) : LockState K :=
  steps.foldl (step opts) {}

lemma run_append (opts : LockOptions) (steps : List (LockStep K)) (a : LockStep K) :
    run opts (steps ++ [a]) = step opts (run opts steps) a :=
  foldl_append

/-! ## The keys that are locked -/

namespace LockState

variable {s : LockState K} {key key' : K} {info info' : LockInfo}

lemma find_eq_none : s.find key = none ↔ key ∉ s.keys.map Prod.fst :=
  Option.map_eq_none_iff.trans Keyed.find?_eq_none

lemma mem_of_find (h : s.find key = some info) : (key, info) ∈ s.keys := by
  obtain ⟨entry, hentry, rfl⟩ := Option.map_eq_some_iff.1 h
  have hkey : entry.1 = key := by simpa using find?_some hentry
  rw [← hkey]
  exact mem_of_find?_eq_some hentry

lemma keys_setLock (s : LockState K) (key : K) (info : LockInfo) :
    (s.setLock key info).keys.map Prod.fst = s.keys.map Prod.fst :=
  Keyed.map_key_modify fun _ hkey => hkey.symm

lemma find_setLock (h : key ∈ s.keys.map Prod.fst) (info : LockInfo) (key' : K) :
    (s.setLock key info).find key' = if key' = key then some info else s.find key' := by
  have hmap : (s.setLock key info).find key' =
      (s.find key').map fun old => if key' = key then info else old := by
    simp only [find, setLock]
    induction s.keys with
    | nil => rfl
    | cons entry entries ih =>
      rw [map_cons, find?_cons, find?_cons]
      grind
  rw [hmap]
  split_ifs with hk
  · obtain ⟨old, hold⟩ := Option.ne_none_iff_exists'.1 (mt find_eq_none.1 (not_not.2 (hk ▸ h)))
    rw [hold, Option.map_some]
  · exact Option.map_id'

lemma find_eraseLock (s : LockState K) (key key' : K) :
    (s.eraseLock key).find key' = if key' = key then none else s.find key' := by
  rw [find, eraseLock, Keyed.find?_filter_ne]
  split_ifs <;> rfl

lemma length_eraseLock (nodup : (s.keys.map Prod.fst).Nodup) (h : s.find key = some info) :
    (s.eraseLock key).keys.length + 1 = s.keys.length :=
  (Keyed.perm_filter_ne nodup (mem_of_find h)).length_eq.symm

end LockState

/-! ## What a call can do -/

section Cases

variable (opts : LockOptions) (key : K) (txnId : ℕ) (exclusive : Bool) (expireTime : ℕ)
  (s : LockState K)

lemma isLockExpired_expired {txnId : ℕ} {info : LockInfo} {now expireTime : ℕ}
    {expirable : ℕ → Option TransactionState}
    (h : (isLockExpired txnId info now expireTime expirable).expired) :
    info.expirationTime ≠ 0 ∧ info.expirationTime ≤ now := by
  rw [isLockExpired] at h
  split_ifs at h with hzero hlater
  exact ⟨hzero, not_lt.1 hlater⟩

/-- How the lock of a key that is locked becomes another one. -/
inductive Regrant (opts : LockOptions) (txnId : ℕ) (exclusive : Bool) (now : ℕ) :
    LockInfo → LockInfo → Prop
  | own {info : LockInfo} (only : info.txnIds = [txnId]) :
      Regrant opts txnId exclusive now info
        { info with exclusive, expirationTime := opts.expiration txnId }
  | steal {info : LockInfo} (expires : info.expirationTime ≠ 0)
      (expired : info.expirationTime ≤ now) :
      Regrant opts txnId exclusive now info (opts.request txnId exclusive)
  | join {info : LockInfo} (shared : info.exclusive = false) (request : exclusive = false) :
      Regrant opts txnId exclusive now info
        { info with
          txnIds := info.txnIds ++ [txnId]
          expirationTime := max info.expirationTime (opts.expiration txnId) }

/-- Nothing is granted, or a lock is granted again, or the key was not locked. -/
lemma acquireLocked_cases {opts : LockOptions} {key : K} {txnId : ℕ} {exclusive : Bool}
    {expireTime : ℕ} {s s' : LockState K} {result : Acquired}
    (h : acquireLocked opts key txnId exclusive expireTime s = (result, s')) :
    (result.status ≠ .ok ∧ ∃ expirable, s' = { s with expirable }) ∨
    (result.status = .ok ∧ ∃ info info' expirable, s.find key = some info ∧
      Regrant opts txnId exclusive s.now info info' ∧
      s' = LockState.setLock { s with expirable } key info') ∨
    (result.status = .ok ∧ s.find key = none ∧ s' = { s with
        keys := (key, opts.request txnId exclusive) :: s.keys
        lockCnt := if opts.maxNumLocks ≠ 0 then s.lockCnt + 1 else s.lockCnt }) := by
  cases hfind : s.find key with
  | none =>
    simp only [acquireLocked, hfind] at h
    by_cases hlimit : 0 < opts.maxNumLocks ∧ opts.maxNumLocks ≤ s.lockCnt
    · rw [if_pos hlimit] at h
      cases h
      exact .inl ⟨by simp, s.expirable, rfl⟩
    · rw [if_neg hlimit] at h
      cases h
      exact .inr (.inr ⟨rfl, rfl, rfl⟩)
  | some info =>
    simp only [acquireLocked, hfind] at h
    split_ifs at h with hexclusive honly hexpired
    · cases h
      exact .inr (.inl ⟨rfl, info, _, s.expirable, rfl, .own honly, rfl⟩)
    · obtain ⟨hexpires, hle⟩ := isLockExpired_expired hexpired
      cases h
      exact .inr (.inl ⟨rfl, info, _, _, rfl, .steal hexpires hle, rfl⟩)
    · cases h
      exact .inl ⟨by simp, _, rfl⟩
    · simp only [LockOptions.request, Bool.or_eq_true, not_or, Bool.not_eq_true] at hexclusive
      cases h
      exact .inr (.inl ⟨rfl, info, _, s.expirable, rfl, .join hexclusive.1 hexclusive.2, rfl⟩)

/-- A key that is not locked is locked unless the limit is reached. -/
lemma acquireLocked_new {key : K} {s : LockState K} (h : s.find key = none) :
    (acquireLocked opts key txnId exclusive expireTime s).1.status = .ok ↔
      ¬ (0 < opts.maxNumLocks ∧ opts.maxNumLocks ≤ s.lockCnt) := by
  simp only [acquireLocked, h]
  by_cases hlimit : 0 < opts.maxNumLocks ∧ opts.maxNumLocks ≤ s.lockCnt
  · rw [if_pos hlimit]
    exact iff_of_false (by simp) (not_not.2 hlimit)
  · rw [if_neg hlimit]
    exact iff_of_true rfl hlimit

/-- The transaction does not hold the lock, or it is the last holder, or others stay. -/
lemma unLockKey_cases :
    (unLockKey opts key txnId s = s ∧ ∀ info, s.find key = some info → txnId ∉ info.txnIds) ∨
    ∃ info, s.find key = some info ∧ txnId ∈ info.txnIds ∧
      (info.txnIds.length = 1 ∧ unLockKey opts key txnId s = { s.eraseLock key with
          lockCnt := if 0 < opts.maxNumLocks then s.lockCnt - 1 else s.lockCnt } ∨
      info.txnIds.length ≠ 1 ∧ ∃ i, info.txnIds[i]? = some txnId ∧ unLockKey opts key txnId s =
        { s.setLock key { info with txnIds := swapRemove i info.txnIds } with
          lockCnt := if 0 < opts.maxNumLocks then s.lockCnt - 1 else s.lockCnt }) := by
  cases hfind : s.find key with
  | none =>
    refine .inl ⟨?_, fun info h => by cases h⟩
    simp only [unLockKey, hfind]
  | some info =>
    cases hidx : info.txnIds.idxOf? txnId with
    | none =>
      refine .inl ⟨?_, fun info' h => ?_⟩
      · simp only [unLockKey, hfind, hidx]
      · cases h
        exact idxOf?_eq_none_iff.1 hidx
    | some i =>
      have hget : info.txnIds[i]? = some txnId := by
        rw [idxOf?_eq_some_iff] at hidx
        obtain ⟨hlt, heq, -⟩ := hidx
        rw [getElem?_eq_getElem hlt]
        simpa using heq
      refine .inr ⟨info, rfl, mem_of_getElem? hget, ?_⟩
      by_cases hlength : info.txnIds.length = 1
      · refine .inl ⟨hlength, ?_⟩
        simp only [unLockKey, hfind, hidx, hlength, if_true]
        rfl
      · refine .inr ⟨hlength, i, hget, ?_⟩
        simp only [unLockKey, hfind, hidx, hlength, if_false]
        rfl

end Cases

/-! ## Counting locks -/

section Counting

variable {opts : LockOptions}

/-- A holder unlocks a key that other holders keep. -/
def Departs (s : LockState K) (a : LockStep K) : Prop :=
  ∃ key txnId info, a = .unLock key txnId ∧ s.find key = some info ∧ txnId ∈ info.txnIds ∧
    info.txnIds.length ≠ 1

/-- `lock_cnt` is the number of keys that are locked; so it is not negative, and a new key is
admitted if and only if fewer keys than the limit are locked. -/
structure Accounted (opts : LockOptions) (s : LockState K) : Prop where
  nodup : (s.keys.map Prod.fst).Nodup
  count : s.lockCnt = s.keys.length
  nonneg : 0 ≤ s.lockCnt
  admits : ∀ key txnId exclusive expireTime, s.find key = none →
    ((acquireLocked opts key txnId exclusive expireTime s).1.status = .ok ↔
      (s.keys.length : ℤ) < opts.maxNumLocks)

section

variable (limit : 0 < opts.maxNumLocks)

include limit

lemma accounted_iff {s : LockState K} (nodup : (s.keys.map Prod.fst).Nodup) :
    Accounted opts s ↔ (s.keys.length : ℤ) - s.lockCnt = 0 := by
  constructor
  · intro h
    rw [h.count, sub_self]
  · intro h
    have hcount : s.lockCnt = s.keys.length := (sub_eq_zero.1 h).symm
    refine ⟨nodup, hcount, by omega, fun key txnId exclusive expireTime hnone => ?_⟩
    rw [acquireLocked_new opts txnId exclusive expireTime hnone, hcount]
    omega

/-- The keys are distinct, and their number goes ahead of the count with every departure. -/
lemma step_count {s : LockState K} (nodup : (s.keys.map Prod.fst).Nodup) (a : LockStep K) :
    ((step opts s a).keys.map Prod.fst).Nodup ∧
    (Departs s a ∧ ((step opts s a).keys.length : ℤ) - (step opts s a).lockCnt =
      s.keys.length - s.lockCnt + 1 ∨
    ¬ Departs s a ∧ ((step opts s a).keys.length : ℤ) - (step opts s a).lockCnt =
      s.keys.length - s.lockCnt) := by
  cases a with
  | acquire key txnId exclusive expireTime =>
    have hstays : ¬ Departs s (.acquire key txnId exclusive expireTime) := by simp [Departs]
    have hstep : step opts s (.acquire key txnId exclusive expireTime) =
      (acquireLocked opts key txnId exclusive expireTime s).2 := rfl
    rcases acquireLocked_cases (Prod.mk.eta (p :=
        acquireLocked opts key txnId exclusive expireTime s)).symm with
      ⟨-, expirable, hs'⟩ | ⟨-, info, info', expirable, -, -, hs'⟩ | ⟨-, hnone, hs'⟩
    all_goals rw [hstep, hs']
    · exact ⟨nodup, .inr ⟨hstays, rfl⟩⟩
    · rw [LockState.keys_setLock]
      exact ⟨nodup, .inr ⟨hstays, by simp [LockState.setLock]⟩⟩
    · refine ⟨nodup_cons.2 ⟨LockState.find_eq_none.1 hnone, nodup⟩, .inr ⟨hstays, ?_⟩⟩
      simp [limit.ne']
  | unLock key txnId =>
    have hdeparts : Departs s (.unLock key txnId) ↔
        ∃ info, s.find key = some info ∧ txnId ∈ info.txnIds ∧ info.txnIds.length ≠ 1 := by
      simp [Departs]
    rw [step, hdeparts]
    rcases unLockKey_cases opts key txnId s with ⟨hs', hnotMem⟩ |
      ⟨info, hfind, hmem, ⟨hlength, hs'⟩ | ⟨hlength, i, -, hs'⟩⟩
    all_goals rw [hs']
    · exact ⟨nodup, .inr ⟨fun ⟨info, hfind, hmem, _⟩ => hnotMem info hfind hmem, rfl⟩⟩
    · have herase := LockState.length_eraseLock nodup hfind
      refine ⟨nodup.sublist (filter_sublist.map _), .inr ⟨by simp [hfind, hlength], ?_⟩⟩
      simp only [if_pos limit]
      omega
    · rw [LockState.keys_setLock]
      refine ⟨nodup, .inl ⟨⟨info, hfind, hmem, hlength⟩, ?_⟩⟩
      simp only [LockState.setLock, length_map, if_pos limit]
      ring
  | tick micros | transaction id state => exact ⟨nodup, .inr ⟨by simp [Departs], rfl⟩⟩

lemma run_count (steps : List (LockStep K)) : ((run opts steps).keys.map Prod.fst).Nodup ∧
      0 ≤ ((run opts steps).keys.length : ℤ) - (run opts steps).lockCnt := by
  induction steps using reverseRecOn with
  | nil => exact ⟨nodup_nil, le_rfl⟩
  | append_singleton steps a ih =>
    obtain ⟨nodup, ⟨-, hcount⟩ | ⟨-, hcount⟩⟩ := step_count limit ih.1 a
    all_goals
      rw [run_append]
      exact ⟨nodup, by have := ih.2; omega⟩

end

/-- **The limit refuses nobody too early.** A key that is not locked can be, as long as fewer keys
than the limit are. -/
theorem acquires_of_room (steps : List (LockStep K)) {key : K}
    (hfind : (run opts steps).find key = none)
    (hroom : (run opts steps).keys.length < opts.maxNumLocks) (txnId : ℕ) (exclusive : Bool)
    (expireTime : ℕ) :
    (acquireLocked opts key txnId exclusive expireTime (run opts steps)).1.status = .ok := by
  have hcount := (run_count (show 0 < opts.maxNumLocks by omega) steps).2
  rw [acquireLocked_new opts txnId exclusive expireTime hfind]
  omega

theorem acquires_of_room_second : (acquireLocked ⟨2, fun _ => 0⟩ 8 2 true 0
      (run ⟨2, fun _ => 0⟩ [.acquire 7 1 true 0])).1.status = .ok :=
  acquires_of_room _ (by decide) (by decide) 2 true 0

/-- **Lock accounting.** The count is right in all states of a run if and only if no holder unlocks
a key that others keep: the count goes up with a key and down with every holder. -/
theorem accounted_iff_no_departure (limit : 0 < opts.maxNumLocks) (steps : List (LockStep K)) :
    (∀ front, front <+: steps → Accounted opts (run opts front)) ↔
      ∀ front a, front ++ [a] <+: steps → ¬ Departs (run opts front) a := by
  constructor
  · intro h front a hfront hdeparts
    have hbefore := h front ((prefix_append front [a]).trans hfront)
    have hafter := h (front ++ [a]) hfront
    obtain ⟨nodup, hcount⟩ := step_count limit hbefore.nodup a
    rw [run_append] at hafter
    have hzero := (accounted_iff limit nodup).1 hafter
    have hzero' := (accounted_iff limit hbefore.nodup).1 hbefore
    have hcount' := (hcount.resolve_right (·.1 hdeparts)).2
    omega
  · intro h front
    induction front using reverseRecOn with
    | nil =>
      intro _
      have nodup : ((run opts ([] : List (LockStep K))).keys.map Prod.fst).Nodup := nodup_nil
      exact (accounted_iff limit nodup).2 rfl
    | append_singleton front a ih =>
      intro hfront
      have hbefore := ih ((prefix_append front [a]).trans hfront)
      obtain ⟨nodup, hcount⟩ := step_count limit hbefore.nodup a
      rw [run_append, accounted_iff limit nodup, (hcount.resolve_left (h front a hfront ·.1)).2]
      exact (accounted_iff limit hbefore.nodup).1 hbefore

end Counting

/-- Two transactions share a key, and both unlock it. -/
def sharedKey : List (LockStep ℕ) :=
  [.acquire 7 1 false 0, .acquire 7 2 false 0, .unLock 7 1, .unLock 7 2]

/-- The first one that unlocks the key leaves it to the other. -/
theorem accounted_iff_no_departure_shared : (0 : ℤ) < 4 ∧
    ¬ ∀ front, front <+: sharedKey → Accounted ⟨4, fun _ => 0⟩ (run ⟨4, fun _ => 0⟩ front) :=
  ⟨by decide, fun h => (accounted_iff_no_departure (by decide) sharedKey).1 h
    [.acquire 7 1 false 0, .acquire 7 2 false 0] (.unLock 7 1) ⟨[.unLock 7 2], rfl⟩
    ⟨7, 1, _, rfl, rfl, by decide, by decide⟩⟩

/-- Two transactions share a lock and one of them unlocks the key, which stays locked: the count is
zero. -/
theorem count_below_keys :
    ¬ ∀ (opts : LockOptions) (steps : List (LockStep ℕ)), 0 < opts.maxNumLocks →
      (run opts steps).lockCnt = (run opts steps).keys.length := by
  intro h
  have hcount := h ⟨4, fun _ => 0⟩
    [.acquire 7 1 false 0, .acquire 7 2 false 0, .unLock 7 1] (by decide)
  revert hcount
  decide

end BucketLSM.Lock
