import BucketLSM.Lib.Keyed
import BucketLSM.Lib.Acyclic

/-!
# Deadlock detection

A transaction that waits for a lock records the holders it waits for (`IncrementWaiters`) and takes
the record back when it wakes up (`DecrementWaiters`,
`utilities/transactions/lock/point/point_lock_manager.cc`). Before it waits, a breadth-first search
looks for a way back to itself. The search has no set of visited transactions, only a queue that is
cut off at the detection depth.
-/

namespace BucketLSM.Lock

open Relation BucketLSM.Lib List Option

variable {K : Type}

/-- `TrackedTrxInfo`: whom a transaction waits for, and the lock it asks for. -/
structure TrackedTrxInfo (K : Type) where
  neighbors : List ℕ
  cfId : ℕ
  exclusive : Bool
  waitingKey : K
deriving DecidableEq

/-- `DeadlockInfo`: a transaction on a deadlock path, and the lock it asks for. -/
structure DeadlockInfo (K : Type) where
  txnId : ℕ
  cfId : ℕ
  exclusive : Bool
  waitingKey : K
deriving DecidableEq

open DeadlockInfo

/-- `wait_txn_map_` and `rev_wait_txn_map_`. -/
structure WaitMaps (K : Type) where
  waitTxnMap : List (ℕ × TrackedTrxInfo K) := []
  revWaitTxnMap : ℕ → Option ℕ := fun _ => none

namespace WaitMaps

/-- `wait_txn_map_.Get`, where there is an entry. -/
def find (m : WaitMaps K) (id : ℕ) : Option (TrackedTrxInfo K) :=
  (m.waitTxnMap.find? fun entry => entry.1 = id).map Prod.snd

/-- A transaction waits for another. -/
def WaitsFor (m : WaitMaps K) (v w : ℕ) : Prop := ∃ info, m.find v = some info ∧ w ∈ info.neighbors

/-- How many recorded entries name a transaction. -/
def naming (m : WaitMaps K) (id : ℕ) : ℕ :=
  (m.waitTxnMap.map fun entry => entry.2.neighbors.count id).sum

end WaitMaps

/-- One more waiter for a transaction. -/
def countWaiter (rev : ℕ → Option ℕ) (waitId : ℕ) : ℕ → Option ℕ :=
  Function.update rev waitId (some ((rev waitId).elim 1 (· + 1)))

/-- One waiter less for a transaction; with the last one its entry goes. -/
def discountWaiter (rev : ℕ → Option ℕ) (waitId : ℕ) : ℕ → Option ℕ :=
  Function.update rev waitId
    ((rev waitId).bind fun count => if count - 1 = 0 then none else some (count - 1))

/-- `DecrementWaitersImpl`. -/
def decrementWaiters (id : ℕ) (waitIds : List ℕ) (m : WaitMaps K) : WaitMaps K where
  waitTxnMap := m.waitTxnMap.filter fun entry => entry.1 ≠ id
  revWaitTxnMap := waitIds.foldl discountWaiter m.revWaitTxnMap

/-! ## The search -/

/-- The variables of the search: `head`, the filled part of `queue_values` and `queue_parents`, the
parent of what is put into the queue next, and `next_ids`. -/
structure Search where
  head : ℕ
  queue : List (ℕ × Option ℕ)
  parent : Option ℕ
  nextIds : Option (List ℕ)

/-- What the search says: nothing leads back, or a path does, or the queue is full. -/
inductive Verdict (K : Type)
  | free
  | cycle (path : List (DeadlockInfo K))
  | limitExceeded
deriving DecidableEq

/-- The path from an entry of the queue back to a first one, by the parents. The fuel is the number
of entries that can be on it. -/
def pathBack (m : WaitMaps K) (queue : List (ℕ × Option ℕ)) : ℕ → Option ℕ → List (DeadlockInfo K)
  | 0, _ => []
  | _, none => []
  | fuel + 1, some head =>
    match queue[head]? with
    | none => []
    | some (value, parent) =>
      match m.find value with
      | none => []
      | some info =>
        ⟨value, info.cfId, info.exclusive, info.waitingKey⟩ :: pathBack m queue fuel parent

/-- The queue with the next transactions, as far as there is room. -/
def Search.fill (q : Search) (depth : ℕ) : List (ℕ × Option ℕ) :=
  q.queue ++ ((q.nextIds.getD []).take (depth - q.queue.length)).map fun id => (id, q.parent)

/-- The loop of the search. The first argument is what is left of the depth. -/
def search (m : WaitMaps K) (depth id : ℕ) : ℕ → Search → Verdict K
  | 0, _ => .limitExceeded
  | rest + 1, q =>
    let queue := q.fill depth
    match queue[q.head]? with
    | none => .free
    | some (next, _) =>
      if next = id then .cycle (pathBack m queue (q.head + 1) (some q.head)).reverse
      else
        match m.find next with
        | none => search m depth id rest { q with head := q.head + 1, queue, nextIds := none }
        | some info =>
          search m depth id rest
            { head := q.head + 1, queue, parent := some q.head, nextIds := some info.neighbors }

/-- What a transaction tells about the lock it waits for. -/
structure Waiter (K : Type) where
  id : ℕ
  depth : ℕ
  waitIds : List ℕ
  key : K
  cfId : ℕ
  exclusive : Bool

/-- The entry of a waiter. -/
def Waiter.info (w : Waiter K) : TrackedTrxInfo K := ⟨w.waitIds, w.cfId, w.exclusive, w.key⟩

/-- The maps with the record of a waiter. -/
def insertWaiter (w : Waiter K) (m : WaitMaps K) : WaitMaps K where
  waitTxnMap := (w.id, w.info) :: m.waitTxnMap
  revWaitTxnMap := w.waitIds.foldl countWaiter m.revWaitTxnMap

/-- `IncrementWaiters`: whether there is a deadlock is whether the verdict is not `free`. -/
def incrementWaiters (w : Waiter K) (m : WaitMaps K) : Verdict K × WaitMaps K :=
  let m := insertWaiter w m
  -- no deadlock if nobody waits for the transaction itself
  if m.revWaitTxnMap w.id = none then (.free, m)
  else
    match search m w.depth w.id w.depth ⟨0, [], none, some w.waitIds⟩ with
    | .free => (.free, m)
    | deadlock => (deadlock, decrementWaiters w.id w.waitIds m)

/-! ## Runs -/

/-- A step: a transaction that does not wait starts to, or one that waits wakes up. -/
inductive WaitStep : WaitMaps K → WaitMaps K → Prop
  | increment {m : WaitMaps K} (w : Waiter K) (idle : m.find w.id = none) :
      WaitStep m (incrementWaiters w m).2
  | decrement {m : WaitMaps K} {id : ℕ} {info : TrackedTrxInfo K}
      (waiting : m.find id = some info) : WaitStep m (decrementWaiters id info.neighbors m)

/-- The maps after some calls. -/
def Waiting (m : WaitMaps K) : Prop := ReflTransGen WaitStep {} m

/-! ## Counting waiters -/

section Counting

variable {rev : ℕ → Option ℕ} {count : ℕ → ℕ}

/-- How a count is recorded: without an entry when it is zero. -/
def tally (count : ℕ) : Option ℕ := if count = 0 then none else some count

lemma countWaiter_tally (h : ∀ id, rev id = tally (count id)) (waitId id : ℕ) :
    countWaiter rev waitId id = tally (count id + if waitId = id then 1 else 0) := by
  rw [countWaiter, Function.update_apply, h waitId]
  by_cases hid : waitId = id
  · subst hid
    by_cases hzero : count waitId = 0 <;> simp [tally, hzero]
  · rw [if_neg (Ne.symm hid), if_neg hid, h id, add_zero]

lemma discountWaiter_tally {waitId : ℕ}
    (h : ∀ id, rev id = tally (count id + if waitId = id then 1 else 0)) (id : ℕ) :
    discountWaiter rev waitId id = tally (count id) := by
  rw [discountWaiter, Function.update_apply, h waitId]
  by_cases hid : waitId = id
  · subst hid
    simp [tally]
  · rw [if_neg (Ne.symm hid), h id, if_neg hid, add_zero]

lemma foldl_countWaiter (waitIds : List ℕ) (h : ∀ id, rev id = tally (count id)) (id : ℕ) :
    waitIds.foldl countWaiter rev id = tally (count id + waitIds.count id) := by
  induction waitIds generalizing rev count with
  | nil => exact h id
  | cons waitId waitIds ih =>
    rw [foldl_cons, ih (countWaiter_tally h waitId), count_cons]
    simp only [beq_iff_eq]
    rw [add_assoc, add_comm (waitIds.count id)]

lemma foldl_discountWaiter (waitIds : List ℕ)
    (h : ∀ id, rev id = tally (count id + waitIds.count id)) (id : ℕ) :
    waitIds.foldl discountWaiter rev id = tally (count id) := by
  induction waitIds generalizing rev with
  | nil => exact h id
  | cons waitId waitIds ih =>
    have hcount : ∀ id, rev id =
        tally ((fun id => count id + waitIds.count id) id + if waitId = id then 1 else 0) := by
      intro id
      rw [h id, count_cons]
      simp only [beq_iff_eq]
      rw [add_assoc]
    rw [foldl_cons]
    exact ih (discountWaiter_tally hcount)

end Counting

/-! ## The maps -/

section Maps

variable {m : WaitMaps K} {w : Waiter K} {id : ℕ} {info : TrackedTrxInfo K}

lemma find_eq_none_iff : m.find id = none ↔ id ∉ m.waitTxnMap.map Prod.fst :=
  Option.map_eq_none_iff.trans Keyed.find?_eq_none

lemma find_insertWaiter (w : Waiter K) (m : WaitMaps K) (id : ℕ) :
    (insertWaiter w m).find id = if id = w.id then some w.info else m.find id := by
  rw [WaitMaps.find, insertWaiter, find?_cons]
  by_cases hid : id = w.id
  · simp [hid]
  · simp [hid, Ne.symm hid, WaitMaps.find]

lemma find_decrementWaiters (waitIds : List ℕ) (v : ℕ) :
    (decrementWaiters id waitIds m).find v = if v = id then none else m.find v := by
  rw [WaitMaps.find, decrementWaiters, Keyed.find?_filter_ne]
  split_ifs <;> rfl

lemma naming_insertWaiter (w : Waiter K) (m : WaitMaps K) (id : ℕ) :
    (insertWaiter w m).naming id = m.naming id + w.waitIds.count id := by
  rw [add_comm]
  rfl

/-- The entries of a transaction that wakes up are no longer counted. -/
lemma naming_decrementWaiters (nodup : (m.waitTxnMap.map Prod.fst).Nodup)
    (h : m.find id = some info) (waitIds : List ℕ) (v : ℕ) :
    m.naming v = (decrementWaiters id waitIds m).naming v + info.neighbors.count v := by
  obtain ⟨entry, hentry, rfl⟩ := map_eq_some_iff.1 h
  obtain rfl : entry.1 = id := by simpa using find?_some hentry
  rw [add_comm]
  exact ((Keyed.perm_filter_ne nodup (mem_of_find?_eq_some hentry)).map _).sum_eq

/-- Every transaction has at most one entry, and the entries that name it are counted. -/
structure Counted (m : WaitMaps K) : Prop where
  nodup : (m.waitTxnMap.map Prod.fst).Nodup
  count : ∀ id, m.revWaitTxnMap id = tally (m.naming id)

lemma Counted.insertWaiter (h : Counted m) (idle : m.find w.id = none) :
    Counted (insertWaiter w m) := by
  refine ⟨nodup_cons.2 ⟨find_eq_none_iff.1 idle, h.nodup⟩, fun id => ?_⟩
  rw [naming_insertWaiter]
  exact foldl_countWaiter w.waitIds h.count id

lemma Counted.decrementWaiters (h : Counted m) (waiting : m.find id = some info) :
    Counted (decrementWaiters id info.neighbors m) := by
  refine ⟨h.nodup.sublist (filter_sublist.map _), ?_⟩
  refine foldl_discountWaiter info.neighbors fun v => ?_
  rw [h.count, naming_decrementWaiters h.nodup waiting info.neighbors]

/-- To take the record of a waiter back gives the maps as they were. -/
lemma Counted.restore (h : Counted m) (idle : m.find w.id = none) :
    Lock.decrementWaiters w.id w.waitIds (Lock.insertWaiter w m) = m := by
  have hwaits : (Lock.decrementWaiters w.id w.waitIds (Lock.insertWaiter w m)).waitTxnMap =
      m.waitTxnMap := by
    simp only [Lock.decrementWaiters, Lock.insertWaiter]
    rw [filter_cons_of_neg (by simp)]
    exact Keyed.filter_ne (find_eq_none_iff.1 idle)
  have hrev : (Lock.decrementWaiters w.id w.waitIds (Lock.insertWaiter w m)).revWaitTxnMap =
      m.revWaitTxnMap := by
    funext v
    rw [h.count]
    exact foldl_discountWaiter w.waitIds (foldl_countWaiter w.waitIds h.count) v
  cases m
  simp only at hwaits hrev
  rw [WaitMaps.mk.injEq]
  exact ⟨hwaits, hrev⟩

variable {v : ℕ}

lemma waitsFor_of_insertWaiter {u : ℕ} (hne : u ≠ w.id) (h : (insertWaiter w m).WaitsFor u v) :
    m.WaitsFor u v := by
  obtain ⟨info, hfind, hv⟩ := h
  rw [find_insertWaiter, if_neg hne] at hfind
  exact ⟨info, hfind, hv⟩

lemma waitsFor_new (h : (insertWaiter w m).WaitsFor w.id v) : v ∈ w.waitIds := by
  obtain ⟨info, hfind, hv⟩ := h
  rw [find_insertWaiter, if_pos rfl] at hfind
  cases hfind
  exact hv

/-- A transaction that somebody waits for is named. -/
lemma naming_ne_zero {u : ℕ} (h : m.WaitsFor u v) : m.naming v ≠ 0 := by
  obtain ⟨info, hfind, hv⟩ := h
  obtain ⟨entry, hentry, rfl⟩ := map_eq_some_iff.1 hfind
  intro hzero
  have hcount := sum_eq_zero_iff.1 hzero _ (mem_map.2 ⟨entry, mem_of_find?_eq_some hentry, rfl⟩)
  exact absurd hv (count_eq_zero.1 hcount)

end Maps

/-! ## What the search has seen -/

section Search

variable {m : WaitMaps K} {depth id : ℕ} {waitIds : List ℕ} {q : Search}

/-- Where a transaction in the queue comes from: the waiter itself waits for it, or an earlier
transaction in the queue does. -/
def Origin (m : WaitMaps K) (id : ℕ) (waitIds : List ℕ) (queue : List (ℕ × Option ℕ)) (j : ℕ)
    (parent : Option ℕ) (v : ℕ) : Prop :=
  parent = none ∧ v ∈ waitIds ∨
    ∃ i u parent', parent = some i ∧ i < j ∧ queue[i]? = some (u, parent') ∧ u ≠ id ∧ m.WaitsFor u v

variable {parent : Option ℕ} {queue : List (ℕ × Option ℕ)} {v rest : ℕ}

lemma Origin.mono {queue' : List (ℕ × Option ℕ)} {j j' : ℕ}
    (h : Origin m id waitIds queue j parent v) (hqueue : queue <+: queue') (hj : j ≤ j') :
    Origin m id waitIds queue' j' parent v := by
  refine h.imp_right ?_
  rintro ⟨i, u, parent', hparent, hi, hget, hrest⟩
  obtain ⟨added, rfl⟩ := hqueue
  refine ⟨i, u, parent', hparent, hi.trans_le hj, ?_, hrest⟩
  rw [List.getElem?_append_left (List.getElem?_eq_some_iff.1 hget).1]
  exact hget

/-- The invariant of the search. While the queue has room, it holds all that was met so far. -/
structure Searching (m : WaitMaps K) (depth id : ℕ) (waitIds : List ℕ) (q : Search) : Prop where
  head_le : q.head ≤ q.queue.length
  seen : ∀ j v parent, j < q.head → q.queue[j]? = some (v, parent) → v ≠ id
  origin : ∀ j v parent, q.queue[j]? = some (v, parent) → Origin m id waitIds q.queue j parent v
  pending : ∀ v ∈ q.nextIds.getD [], Origin m id waitIds q.queue q.head q.parent v
  covered : q.queue.length < depth → ∀ w,
    (w ∈ waitIds ∨ ∃ j v parent, j < q.head ∧ q.queue[j]? = some (v, parent) ∧ m.WaitsFor v w) →
    w ∈ q.queue.map Prod.fst ∨ w ∈ q.nextIds.getD []

lemma searching_start : Searching m depth id waitIds ⟨0, [], none, some waitIds⟩ where
  head_le := le_rfl
  seen := fun j _ _ hj => absurd hj (Nat.not_lt_zero j)
  origin := fun j v parent h => by cases h
  pending := fun v hv => .inl ⟨rfl, hv⟩
  covered := by
    rintro - w (hw | ⟨j, -, -, hj, -⟩)
    · exact .inr hw
    · exact absurd hj (Nat.not_lt_zero j)

lemma queue_le_fill (q : Search) (depth : ℕ) : q.queue <+: q.fill depth := prefix_append _ _

/-- Nothing is cut off as long as the queue has room. -/
lemma mem_fill (hroom : (q.fill depth).length < depth)
    (h : v ∈ q.queue.map Prod.fst ∨ v ∈ q.nextIds.getD []) : v ∈ (q.fill depth).map Prod.fst := by
  rw [Search.fill, List.length_append, List.length_map, List.length_take] at hroom
  have htake : (q.nextIds.getD []).take (depth - q.queue.length) = q.nextIds.getD [] :=
    List.take_of_length_le (by omega)
  rw [Search.fill, htake, List.map_append, List.map_map, List.mem_append]
  refine h.imp_right fun hv => ?_
  exact List.mem_map.2 ⟨v, hv, rfl⟩

section

variable (inv : Searching m depth id waitIds q)

include inv

lemma Searching.fill :
    Searching m depth id waitIds { q with queue := q.fill depth, nextIds := none } where
  head_le := inv.head_le.trans (queue_le_fill q depth).length_le
  seen := by
    intro j v parent hj hget
    have hlt : j < q.queue.length := hj.trans_le inv.head_le
    refine inv.seen j v parent hj ?_
    simpa only [Search.fill, getElem?_append_left hlt] using hget
  origin := by
    intro j v parent hget
    by_cases hlt : j < q.queue.length
    · simp only [Search.fill, getElem?_append_left hlt] at hget
      exact (inv.origin j v parent hget).mono (queue_le_fill q depth) le_rfl
    · have hle := not_lt.1 hlt
      simp only [Search.fill, getElem?_append_right hle] at hget
      obtain ⟨v', hmem, heq⟩ := mem_map.1 (mem_of_getElem? hget)
      cases heq
      exact (inv.pending v (mem_of_mem_take hmem)).mono (queue_le_fill q depth)
        (inv.head_le.trans hle)
  pending := fun v hv => by cases hv
  covered := by
    rintro hroom w hw
    refine .inl (mem_fill hroom (inv.covered ?_ w ?_))
    · exact (queue_le_fill q depth).length_le.trans_lt hroom
    · refine hw.imp_right ?_
      rintro ⟨j, v, parent, hj, hget, hwaits⟩
      refine ⟨j, v, parent, hj, ?_, hwaits⟩
      simpa only [Search.fill, getElem?_append_left (hj.trans_le inv.head_le)] using hget

/-- The transaction at the head is not the waiter, and whom it waits for comes next. -/
lemma Searching.advance
    (hget : q.queue[q.head]? = some (v, parent)) (hne : v ≠ id) {parent' : Option ℕ}
    {nextIds : Option (List ℕ)} (hnone : q.nextIds = none)
    (hnext : ∀ w, m.WaitsFor v w ↔ w ∈ nextIds.getD [])
    (hparent : nextIds ≠ none → parent' = some q.head) : Searching m depth id waitIds
      { q with head := q.head + 1, parent := parent', nextIds } where
  head_le := (List.getElem?_eq_some_iff.1 hget).1
  seen := by
    intro j u p hj hu
    rcases Nat.lt_succ_iff_lt_or_eq.1 hj with hj | rfl
    · exact inv.seen j u p hj hu
    · simp only [hget, some.injEq, Prod.mk.injEq] at hu
      exact hu.1 ▸ hne
  origin := inv.origin
  pending := by
    intro w hw
    have hsome : nextIds ≠ none := by
      rintro rfl
      cases hw
    exact .inr ⟨q.head, v, parent, hparent hsome, Nat.lt_succ_self _, hget, hne, (hnext w).2 hw⟩
  covered := by
    rintro hroom w hw
    have hmet : (w ∈ waitIds ∨ ∃ j v parent, j < q.head ∧ q.queue[j]? = some (v, parent) ∧
        m.WaitsFor v w) ∨ m.WaitsFor v w := by
      rcases hw with hw | ⟨j, u, p, hj, hu, hwaits⟩
      · exact .inl (.inl hw)
      rcases Nat.lt_succ_iff_lt_or_eq.1 hj with hj | rfl
      · exact .inl (.inr ⟨j, u, p, hj, hu, hwaits⟩)
      · simp only [hget, some.injEq, Prod.mk.injEq] at hu
        exact .inr (hu.1 ▸ hwaits)
    rcases hmet with hmet | hwaits
    · rcases inv.covered hroom w hmet with hmem | hmem
      · exact .inl hmem
      · rw [hnone] at hmem
        cases hmem
    · exact .inr ((hnext w).1 hwaits)

lemma search_succ {result : Verdict K} (h : search m depth id (rest + 1) q = result) :
    ((q.fill depth)[q.head]? = none ∧ result = .free) ∨
    (∃ parent, (q.fill depth)[q.head]? = some (id, parent) ∧
      result = .cycle (pathBack m (q.fill depth) (q.head + 1) (some q.head)).reverse) ∨
    ∃ q', Searching m depth id waitIds q' ∧ q'.head = q.head + 1 ∧
      search m depth id rest q' = result := by
  rw [search] at h
  cases hget : (q.fill depth)[q.head]? with
  | none =>
    simp only [hget] at h
    exact .inl ⟨rfl, h.symm⟩
  | some entry =>
    obtain ⟨next, parent⟩ := entry
    simp only [hget] at h
    by_cases hnext : next = id
    · subst hnext
      rw [if_pos rfl] at h
      exact .inr (.inl ⟨parent, rfl, h.symm⟩)
    · rw [if_neg hnext] at h
      refine .inr (.inr ?_)
      cases hfind : m.find next with
      | none =>
        simp only [hfind] at h
        refine ⟨_, inv.fill.advance hget hnext rfl (fun w => ?_) fun hsome => ?_, rfl, h⟩
        · refine iff_of_false ?_ (not_mem_nil)
          rintro ⟨info, hinfo, -⟩
          rw [hfind] at hinfo
          cases hinfo
        · exact absurd rfl hsome
      | some info =>
        simp only [hfind] at h
        refine ⟨_, inv.fill.advance hget hnext rfl (fun w => ?_) fun _ => rfl, rfl, h⟩
        constructor
        · rintro ⟨info', hinfo, hw⟩
          rw [hfind] at hinfo
          cases hinfo
          exact hw
        · exact fun hw => ⟨info, hfind, hw⟩

/-- A search that finds nothing has met all that can be reached, and not the waiter itself: a queue
that was cut off is full, and the search does not come to its end before the depth. -/
lemma Searching.free (hrest : q.head + rest = depth) (h : search m depth id rest q = .free) :
    ∃ S : Set ℕ, (∀ w ∈ waitIds, w ∈ S) ∧ (∀ v w, v ∈ S → m.WaitsFor v w → w ∈ S) ∧ id ∉ S := by
  induction rest generalizing q with
  | zero => cases h
  | succ rest ih =>
    rcases search_succ inv h with ⟨hnone, -⟩ | ⟨-, -, hcycle⟩ | ⟨q', inv', hhead, h'⟩
    · have hend : (q.fill depth).length = q.head :=
        le_antisymm (getElem?_eq_none_iff.1 hnone) inv.fill.head_le
      have hroom : (q.fill depth).length < depth := by omega
      have hcovered : ∀ w, (w ∈ waitIds ∨ ∃ j v parent, j < q.head ∧
          (q.fill depth)[j]? = some (v, parent) ∧ m.WaitsFor v w) →
          w ∈ (q.fill depth).map Prod.fst := by
        intro w hw
        rcases inv.fill.covered hroom w hw with hmem | hmem
        · exact hmem
        · cases hmem
      have hindex : ∀ v ∈ (q.fill depth).map Prod.fst, ∃ j parent, j < q.head ∧
          (q.fill depth)[j]? = some (v, parent) := by
        intro v hv
        obtain ⟨entry, hentry, rfl⟩ := mem_map.1 hv
        obtain ⟨j, hj, hget⟩ := getElem_of_mem hentry
        exact ⟨j, entry.2, hend ▸ hj, by rw [getElem?_eq_getElem hj, hget]⟩
      refine ⟨{v | v ∈ (q.fill depth).map Prod.fst}, fun w hw => hcovered w (.inl hw),
        fun v w hv hwaits => ?_, fun hid => ?_⟩
      · obtain ⟨j, parent, hj, hget⟩ := hindex v hv
        exact hcovered w (.inr ⟨j, v, parent, hj, hget, hwaits⟩)
      · obtain ⟨j, parent, hj, hget⟩ := hindex id hid
        exact inv.fill.seen j id parent hj hget rfl
    · cases hcycle
    · exact ih inv' (by omega) h'

end

/-! ## The path of a deadlock -/

lemma pathBack_recorded (queue : List (ℕ × Option ℕ)) (fuel : ℕ) (head : Option ℕ)
    {d : DeadlockInfo K} (h : d ∈ pathBack m queue fuel head) : ∃ info, m.find d.txnId = some info ∧
      d = ⟨d.txnId, info.cfId, info.exclusive, info.waitingKey⟩ := by
  induction fuel generalizing head with
  | zero => cases h
  | succ fuel ih =>
    cases head with
    | none => cases h
    | some head =>
      rw [pathBack] at h
      cases hget : queue[head]? with
      | none => simp [hget] at h
      | some entry =>
        cases hfind : m.find entry.1 with
        | none => simp [hget, hfind] at h
        | some info =>
          simp only [hget, hfind, mem_cons] at h
          rcases h with rfl | h
          · exact ⟨info, hfind, rfl⟩
          · exact ih _ h

/-- From an entry of the queue the parents lead back to one of those the waiter waits for. -/
lemma pathBack_chain
    (origin : ∀ j v parent, queue[j]? = some (v, parent) → Origin m id waitIds queue j parent v)
    (fuel : ℕ) {j : ℕ} {info : TrackedTrxInfo K} (hj : j < fuel)
    (hget : queue[j]? = some (v, parent)) (hfind : m.find v = some info) :
    let path := (pathBack m queue fuel (some j)).reverse.map txnId
    path.getLast? = some v ∧ (∃ u ∈ waitIds, path.head? = some u) ∧
      path.IsChain fun u w => u ≠ id ∧ m.WaitsFor u w := by
  induction fuel generalizing j v parent info with
  | zero => exact absurd hj (Nat.not_lt_zero j)
  | succ fuel ih =>
    simp only [pathBack, hget, hfind, reverse_cons, map_append, map_cons, map_nil]
    rcases origin j v parent hget with ⟨rfl, hv⟩ | ⟨i, u, parent', rfl, hi, hu, hne, hwaits⟩
    · have hnil : pathBack m queue fuel none = [] := by cases fuel <;> rfl
      rw [hnil]
      exact ⟨rfl, ⟨v, hv, rfl⟩, isChain_singleton _⟩
    · have ⟨info', hinfo', _⟩ := hwaits
      obtain ⟨hlast, ⟨first, hfirst, hhead⟩, hchain⟩ := ih (by omega) hu hinfo'
      refine ⟨getLast?_concat, ⟨first, hfirst, ?_⟩, ?_⟩
      · rw [head?_append, hhead]
        rfl
      · refine isChain_append.2 ⟨hchain, isChain_singleton _, fun x hx y hy => ?_⟩
        rw [hlast] at hx
        cases hx
        cases hy
        exact ⟨hne, hwaits⟩

/-- A path that the search reports leads from one of those the waiter waits for to the waiter. -/
lemma Searching.cycle {path : List (DeadlockInfo K)} {info : TrackedTrxInfo K}
    (inv : Searching m depth id waitIds q) (hfind : m.find id = some info)
    (h : search m depth id rest q = .cycle path) : (path.map txnId).getLast? = some id ∧
    (∃ u ∈ waitIds, (path.map txnId).head? = some u) ∧
    ((path.map txnId).IsChain fun u w => u ≠ id ∧ m.WaitsFor u w) ∧
    ∀ d ∈ path, ∃ info, m.find d.txnId = some info ∧
      d = ⟨d.txnId, info.cfId, info.exclusive, info.waitingKey⟩ := by
  induction rest generalizing q with
  | zero => cases h
  | succ rest ih =>
    rcases search_succ inv h with ⟨-, hfree⟩ | ⟨parent, hget, hcycle⟩ | ⟨q', inv', -, h'⟩
    · cases hfree
    · cases hcycle
      obtain ⟨hlast, hhead, hchain⟩ :=
        pathBack_chain inv.fill.origin (q.head + 1) (Nat.lt_succ_self _) hget hfind
      refine ⟨hlast, hhead, hchain, fun d hd => ?_⟩
      exact pathBack_recorded _ _ _ (mem_reverse.1 hd)
    · exact ih inv' h'

end Search

/-! ## The wait graph along a run -/

section Run

variable {m : WaitMaps K} {w : Waiter K}

/-- A path is a cycle that the edges of a waiter close: the first transaction is one it waits for,
the last one is the waiter, no transaction is on it twice, and every edge between them was there
before. Each transaction is reported with the lock it asks for. -/
structure ClosesCycle (m : WaitMaps K) (w : Waiter K) (path : List (DeadlockInfo K)) : Prop where
  starts : ∃ u ∈ w.waitIds, (path.map DeadlockInfo.txnId).head? = some u
  ends : (path.map DeadlockInfo.txnId).getLast? = some w.id
  edges : (path.map DeadlockInfo.txnId).IsChain m.WaitsFor
  nodup : (path.map DeadlockInfo.txnId).Nodup
  recorded : ∀ d ∈ path, ∃ info, (insertWaiter w m).find d.txnId = some info ∧
    d = ⟨d.txnId, info.cfId, info.exclusive, info.waitingKey⟩

/-- The maps are those with the record, or they are as before. -/
lemma incrementWaiters_cases (w : Waiter K) (m : WaitMaps K) :
    ((insertWaiter w m).revWaitTxnMap w.id = none ∧
      incrementWaiters w m = (.free, insertWaiter w m)) ∨
    ∃ verdict, search (insertWaiter w m) w.depth w.id w.depth ⟨0, [], none, some w.waitIds⟩ =
        verdict ∧ (verdict = .free ∧ incrementWaiters w m = (.free, insertWaiter w m) ∨
        verdict ≠ .free ∧ incrementWaiters w m =
          (verdict, decrementWaiters w.id w.waitIds (insertWaiter w m))) := by
  simp only [incrementWaiters]
  by_cases hself : (insertWaiter w m).revWaitTxnMap w.id = none
  · exact .inl ⟨hself, if_pos hself⟩
  · rw [if_neg hself]
    refine .inr ⟨_, rfl, ?_⟩
    generalize search (insertWaiter w m) w.depth w.id w.depth _ = verdict
    cases verdict with
    | free => exact .inl ⟨rfl, rfl⟩
    | cycle path | limitExceeded => exact .inr ⟨by simp, rfl⟩

lemma acyclic_insertWaiter (acyclic : Acyclic m.WaitsFor) {S : Set ℕ}
    (hnew : ∀ v ∈ w.waitIds, v ∈ S)
    (hclosed : ∀ u v, u ∈ S → (insertWaiter w m).WaitsFor u v → v ∈ S) (hid : w.id ∉ S) :
    Acyclic (insertWaiter w m).WaitsFor :=
  acyclic.extend (fun _ _ hne => waitsFor_of_insertWaiter hne)
    (fun v hv => hnew v (waitsFor_new hv)) hclosed hid

/-- When a transaction may wait, the graph with its edges has no cycle. -/
lemma acyclic_of_free (counted : Counted m) (acyclic : Acyclic m.WaitsFor)
    (idle : m.find w.id = none) (h : (incrementWaiters w m).1 = .free) :
    (incrementWaiters w m).2 = insertWaiter w m ∧ Acyclic (insertWaiter w m).WaitsFor := by
  rcases incrementWaiters_cases w m with ⟨hself, heq⟩ |
    ⟨verdict, hsearch, ⟨hfree, heq⟩ | ⟨hfree, heq⟩⟩
  · rw [heq]
    refine ⟨rfl, ?_⟩
    -- nobody waits for the waiter, so all but the waiter is closed
    have hnone : ∀ u, ¬ (insertWaiter w m).WaitsFor u w.id := by
      intro u hu
      rw [(counted.insertWaiter idle).count, tally, if_neg (naming_ne_zero hu)] at hself
      cases hself
    refine acyclic_insertWaiter acyclic (S := {v | v ≠ w.id}) (fun v hv => ?_) ?_ (by simp)
    · rintro rfl
      refine hnone w.id ⟨w.info, ?_, hv⟩
      rw [find_insertWaiter, if_pos rfl]
    · rintro u v - hwaits rfl
      exact hnone u hwaits
  · rw [heq]
    subst hfree
    obtain ⟨S, hnew, hclosed, hid⟩ := searching_start.free (Nat.zero_add _) hsearch
    exact ⟨rfl, acyclic_insertWaiter acyclic hnew hclosed hid⟩
  · rw [heq] at h
    exact absurd h hfree

lemma closesCycle_of_cycle (acyclic : Acyclic m.WaitsFor) {path : List (DeadlockInfo K)}
    (h : (incrementWaiters w m).1 = .cycle path) : ClosesCycle m w path := by
  rcases incrementWaiters_cases w m with ⟨-, heq⟩ | ⟨verdict, hsearch, ⟨-, heq⟩ | ⟨-, heq⟩⟩
  · rw [heq] at h
    cases h
  · rw [heq] at h
    cases h
  · rw [heq] at h
    simp only at h
    subst h
    have hfind : (insertWaiter w m).find w.id = some w.info := by
      rw [find_insertWaiter, if_pos rfl]
    obtain ⟨hlast, hhead, hchain, hrecorded⟩ := searching_start.cycle hfind hsearch
    have hedges := hchain.imp fun u v huv => waitsFor_of_insertWaiter huv.1 huv.2
    exact ⟨hhead, hlast, hedges, acyclic.nodup hedges, hrecorded⟩

lemma restored_of_deadlock (counted : Counted m) (idle : m.find w.id = none)
    (h : (incrementWaiters w m).1 ≠ .free) : (incrementWaiters w m).2 = m := by
  rcases incrementWaiters_cases w m with ⟨-, heq⟩ | ⟨verdict, -, ⟨-, heq⟩ | ⟨-, heq⟩⟩
  · exact absurd (congrArg Prod.fst heq) h
  · exact absurd (congrArg Prod.fst heq) h
  · rw [heq]
    exact counted.restore idle

/-- One call keeps the graph free of cycles and the waiters counted. -/
lemma WaitStep.keeps {m' : WaitMaps K} (hstep : WaitStep m m') (counted : Counted m)
    (acyclic : Acyclic m.WaitsFor) : Counted m' ∧ Acyclic m'.WaitsFor := by
  cases hstep with
  | increment w idle =>
    by_cases hfree : (incrementWaiters w m).1 = .free
    · obtain ⟨heq, hacyclic⟩ := acyclic_of_free counted acyclic idle hfree
      rw [heq]
      exact ⟨counted.insertWaiter idle, hacyclic⟩
    · rw [restored_of_deadlock counted idle hfree]
      exact ⟨counted, acyclic⟩
  | decrement waiting =>
    refine ⟨counted.decrementWaiters waiting, acyclic.mono ?_⟩
    rintro u v ⟨info, hfind, hv⟩
    rw [find_decrementWaiters] at hfind
    split_ifs at hfind
    exact ⟨info, hfind, hv⟩

lemma Waiting.keeps (h : Waiting m) : Counted m ∧ Acyclic m.WaitsFor := by
  induction h with
  | refl =>
    refine ⟨⟨nodup_nil, fun id => rfl⟩, fun v hv => ?_⟩
    obtain ⟨u, ⟨info, hfind, -⟩, -⟩ := TransGen.head'_iff.1 hv
    cases hfind
  | tail _ hstep ih => exact hstep.keeps ih.1 ih.2

/-- **Deadlock detection.** After any calls the wait graph has no cycle and the entries that name a
transaction are counted. A path that is reported is a cycle that the new edges close, and a call
that reports a deadlock leaves the maps as they were. -/
theorem waiting_acyclic (h : Waiting m) : Acyclic m.WaitsFor ∧
    (∀ id, m.revWaitTxnMap id = if m.naming id = 0 then none else some (m.naming id)) ∧
    ∀ w, m.find w.id = none →
      (∀ path, (incrementWaiters w m).1 = .cycle path → ClosesCycle m w path) ∧
      ((incrementWaiters w m).1 ≠ .free → (incrementWaiters w m).2 = m) := by
  obtain ⟨counted, acyclic⟩ := h.keeps
  refine ⟨acyclic, counted.count, fun w idle => ⟨fun path hpath => ?_, fun hdeadlock => ?_⟩⟩
  · exact closesCycle_of_cycle acyclic hpath
  · exact restored_of_deadlock counted idle hdeadlock

end Run

/-- The first transaction waits for the second, and then the second asks for a lock of the first:
the cycle is reported. -/
theorem waiting_acyclic_two :
    ClosesCycle (incrementWaiters ⟨1, 5, [2], "a", 0, true⟩ {}).2 ⟨2, 5, [1], "b", 0, true⟩
      [⟨1, 0, true, "a"⟩, ⟨2, 0, true, "b"⟩] := by
  have hwaiting : Waiting (incrementWaiters ⟨1, 5, [2], "a", 0, true⟩ {}).2 :=
    .single (.increment _ rfl)
  exact ((waiting_acyclic hwaiting).2.2 _ (by decide)).1 _ (by decide)

end BucketLSM.Lock
