import BucketLSM.Lib.Bisect
import BucketLSM.Lib.Wire

/-!
# Sequence numbers and times

`db/seqno_to_time_mapping.cc`: a mapping holds pairs of a sequence number and the time it was
written by. In the enforced state the pairs are meant to increase in both, and queries search them
by bisection. Sequence numbers and times are `uint64_t`, whose differences and sums wrap.
-/

namespace BucketLSM

open BucketLSM.Lib BucketLSM.Lib.Wire List

/-- `SeqnoTimePair`. -/
structure SeqnoTimePair where
  seqno : ℕ
  time : ℕ
deriving DecidableEq, Repr

namespace SeqnoTimePair

/-- `operator<` and equality, the order of `std::sort`. -/
def SortsBefore (a b : SeqnoTimePair) : Prop :=
  a.seqno < b.seqno ∨ a.seqno = b.seqno ∧ a.time ≤ b.time

instance : DecidableRel SortsBefore := fun _ _ => inferInstanceAs (Decidable (_ ∨ _))

/-- `Merge`: the pair that both become, if they can be combined. -/
def merge (p other : SeqnoTimePair) : Option SeqnoTimePair :=
  if p.seqno = other.seqno then some { p with time := min p.time other.time }
  else if p.time = other.time then some { p with seqno := max p.seqno other.seqno }
  else if other.time < p.time then some other
  else none

end SeqnoTimePair

/-- `kUnknownTimeBeforeAll`. -/
def kUnknownTimeBeforeAll : ℕ := 0

/-- `kUnknownSeqnoBeforeAll`. -/
def kUnknownSeqnoBeforeAll : ℕ := 0

/-- `UINT64_MAX`, for a mapping without a limit. -/
def kUnlimited : ℕ := 2 ^ 64 - 1

/-- `SeqnoToTimeMapping`. -/
structure SeqnoToTimeMapping where
  maxTimeSpan : ℕ := kUnlimited
  capacity : ℕ := kUnlimited
  pairs : List SeqnoTimePair := []
  enforced : Bool := true
deriving DecidableEq, Repr

namespace SeqnoToTimeMapping

/-! ## Queries -/

variable (pairs : List SeqnoTimePair)

/-- The time of the pair at a position. -/
def timeAt (i : ℕ) : ℕ :=
  (pairs[i]?.map SeqnoTimePair.time).getD kUnknownTimeBeforeAll

/-- The sequence number of the pair at a position. -/
def seqnoAt (i : ℕ) : ℕ :=
  (pairs[i]?.map SeqnoTimePair.seqno).getD kUnknownSeqnoBeforeAll

variable (m : SeqnoToTimeMapping)

/-- `FindGreaterTime`. -/
def findGreaterTime (time : ℕ) : ℕ :=
  bisect (fun i => time < timeAt m.pairs i) 0 m.pairs.length

/-- `GetProximalSeqnoBeforeTime`. -/
def getProximalSeqnoBeforeTime (time : ℕ) : ℕ :=
  if m.findGreaterTime time = 0 then kUnknownSeqnoBeforeAll
  else seqnoAt m.pairs (m.findGreaterTime time - 1)

/-! ## The time span -/

/-- The loop of `EnforceMaxTimeSpan`: one pair at or before the cutoff is kept. -/
def dropOld (cutoffTime : ℕ) : List SeqnoTimePair → List SeqnoTimePair
  | a :: b :: pairs =>
    if a.time ≤ cutoffTime ∧ b.time ≤ cutoffTime then dropOld cutoffTime (b :: pairs)
    else a :: b :: pairs
  | pairs => pairs

/-- `EnforceMaxTimeSpan`. -/
def enforceMaxTimeSpan (now : ℕ) (m : SeqnoToTimeMapping) : SeqnoToTimeMapping :=
  if m.pairs.length ≤ 1 then m
  else
    -- without a current time, the span ends at the newest pair
    let latest := if 0 < now then now else timeAt m.pairs (m.pairs.length - 1)
    if latest < m.maxTimeSpan then m
    else { m with pairs := dropOld (latest - m.maxTimeSpan) m.pairs }

/-! ## The capacity -/

/-- `RemovalCandidate`: a position, and the gap it would leave. -/
structure RemovalCandidate where
  newTimeGap : ℕ
  index : ℕ
deriving DecidableEq, Repr

/-- The difference of two times. -/
def timeGap (before after : ℕ) : ℕ := (after + 2 ^ 64 - before) % 2 ^ 64

/-- The candidates are all pairs but the first and the last. -/
def removalCandidates : List RemovalCandidate :=
  (List.range (pairs.length - 2)).map fun i =>
    ⟨timeGap (timeAt pairs i) (timeAt pairs (i + 2)), i + 1⟩

/-- The gap that the removal of a pair leaves between its neighbours. Pairs that are marked for
removal have no time. -/
def actualGap (i : ℕ) : ℕ :=
  timeGap ((((pairs.take i).reverse.find? (·.time ≠ kUnknownTimeBeforeAll)).map
      SeqnoTimePair.time).getD kUnknownTimeBeforeAll)
    ((((pairs.drop (i + 1)).find? (·.time ≠ kUnknownTimeBeforeAll)).map
      SeqnoTimePair.time).getD kUnknownTimeBeforeAll)

/-- The better candidate has the smaller gap, or is older. -/
def RemovalCandidate.better (a b : RemovalCandidate) : Bool :=
  if a.newTimeGap = b.newTimeGap then seqnoAt pairs a.index < seqnoAt pairs b.index
  else a.newTimeGap < b.newTimeGap

/-- The top of the priority queue. -/
def topCandidate : List RemovalCandidate → Option RemovalCandidate
  | [] => none
  | c :: queue => some (queue.foldl (fun best c => if c.better pairs best then c else best) c)

lemma topCandidate_mem {pairs : List SeqnoTimePair} {queue : List RemovalCandidate}
    {c : RemovalCandidate} (h : topCandidate pairs queue = some c) : c ∈ queue := by
  cases queue with
  | nil => cases h
  | cons b queue =>
    obtain rfl := Option.some.inj h
    clear h
    induction queue generalizing b with
    | nil => exact mem_singleton_self b
    | cons d queue ih =>
      rw [foldl_cons]
      by_cases hbetter : d.better pairs b
      · rw [if_pos hbetter]
        exact mem_cons_of_mem b (ih d)
      · rw [if_neg hbetter]
        rcases mem_cons.1 (ih b) with heq | hmem
        · exact mem_cons.2 (.inl heq)
        · exact mem_cons_of_mem b (mem_cons_of_mem d hmem)

/-- A candidate whose gap has grown since it was put into the queue. -/
def Stale (c : RemovalCandidate) : Prop :=
  c.newTimeGap ≠ actualGap pairs c.index

instance (pairs : List SeqnoTimePair) : DecidablePred (Stale pairs) :=
  fun _ => inferInstanceAs (Decidable (_ ≠ _))

/-- Marks a pair for removal. -/
def markRemoved (i : ℕ) : List SeqnoTimePair :=
  pairs.modify i fun p => { p with time := kUnknownTimeBeforeAll }

/-- The loop of `EnforceCapacity` that marks pairs for removal. A candidate with an outdated gap
goes back to the queue with the actual one. -/
def markCandidates (pairs : List SeqnoTimePair) (queue : List RemovalCandidate) (toRemove : ℕ) :
    List SeqnoTimePair :=
  match toRemove with
  | 0 => pairs
  | n + 1 =>
    match _h : topCandidate pairs queue with
    | none => pairs
    | some c =>
      if _hgap : c.newTimeGap = actualGap pairs c.index then
        markCandidates (markRemoved pairs c.index) (queue.erase c) n
      else markCandidates pairs (⟨actualGap pairs c.index, c.index⟩ :: queue.erase c) (n + 1)
termination_by (toRemove, (queue.filter fun c => decide (Stale pairs c)).length)
decreasing_by
  · exact Prod.Lex.left _ _ (Nat.lt_succ_self n)
  · refine Prod.Lex.right _ ?_
    have hstale : decide (Stale pairs c) = true := decide_eq_true _hgap
    have hperm := (List.perm_cons_erase (topCandidate_mem _h)).filter
      fun c => decide (Stale pairs c)
    rw [hperm.length_eq, List.filter_cons_of_neg (by simp [Stale]),
      List.filter_cons_of_pos (p := fun c => decide (Stale pairs c)) hstale]
    exact Nat.lt_succ_self _

/-- `EnforceCapacity`. -/
def enforceCapacity (strict : Bool) (m : SeqnoToTimeMapping) : SeqnoToTimeMapping :=
  if m.capacity = 0 then { m with pairs := [] }
  else
    let strictCap := if m.capacity = 1 then 2 else m.capacity
    let sum := (strictCap + if strict then 0 else strictCap / 8) % 2 ^ 64
    let effectiveCap := if sum < strictCap then kUnlimited else sum
    if m.pairs.length ≤ effectiveCap then m
    else { m with
      pairs := (markCandidates m.pairs (removalCandidates m.pairs)
        (m.pairs.length - strictCap)).filter fun p => p.time ≠ kUnknownTimeBeforeAll }

/-! ## Sorting -/

/-- The loop of `SortAndMerge`: `last` is the entry at `to_it`. -/
def mergeFrom (last : SeqnoTimePair) : List SeqnoTimePair → List SeqnoTimePair
  | [] => [last]
  | p :: pairs =>
    match last.merge p with
    | some merged => mergeFrom merged pairs
    | none => last :: mergeFrom p pairs

/-- The pairs after `SortAndMerge`. -/
def sortAndMergePairs : List SeqnoTimePair :=
  match pairs.insertionSort SeqnoTimePair.SortsBefore with
  | [] => []
  | first :: rest => mergeFrom first rest

/-- `SortAndMerge`. -/
def sortAndMerge : SeqnoToTimeMapping :=
  { m with pairs := sortAndMergePairs m.pairs, enforced := true }

/-! ## Operations -/

/-- `SetMaxTimeSpan`. -/
def setMaxTimeSpan (span : ℕ) (m : SeqnoToTimeMapping) : SeqnoToTimeMapping :=
  let m := { m with maxTimeSpan := span }
  if m.enforced then m.enforceMaxTimeSpan 0 else m

/-- `SetCapacity`. -/
def setCapacity (capacity : ℕ) (m : SeqnoToTimeMapping) : SeqnoToTimeMapping :=
  let m := { m with capacity := capacity }
  if m.enforced then m.enforceCapacity true else m

/-- `Clear`. -/
def clear : SeqnoToTimeMapping := { m with pairs := [], enforced := true }

/-- `Enforce`. -/
def enforce (now : ℕ) (m : SeqnoToTimeMapping) : SeqnoToTimeMapping :=
  let m := if m.enforced = false then m.sortAndMerge.enforceMaxTimeSpan now
    else if 0 < now then m.enforceMaxTimeSpan now
    else m
  m.enforceCapacity true

/-- `AddUnenforced`. -/
def addUnenforced (seqno time : ℕ) (m : SeqnoToTimeMapping) : SeqnoToTimeMapping :=
  if seqno = 0 then m else { m with enforced := false, pairs := m.pairs ++ [⟨seqno, time⟩] }

/-- The loop of `DecodeImpl`; each pair is encoded as the difference to the one before. -/
def decodePairs : ℕ → SeqnoTimePair → Bytes → Except String (List SeqnoTimePair × Bytes)
  | 0, _, input => .ok ([], input)
  | count + 1, base, input =>
    match getVarint 64 10 input with
    | none => .error "Invalid sequence number"
    | some (seqno, input) =>
      match getVarint 64 10 input with
      | none => .error "Invalid time"
      | some (time, input) =>
        let val : SeqnoTimePair := ⟨(seqno + base.seqno) % 2 ^ 64, (time + base.time) % 2 ^ 64⟩
        (decodePairs count val input).map fun r => (val :: r.1, r.2)

/-- `DecodeImpl`. -/
def decodeImpl (input : Bytes) : Except String (List SeqnoTimePair) :=
  if input = [] then .ok []
  else
    match getVarint 64 10 input with
    | none => .error "Invalid sequence number time size"
    | some (count, input) =>
      match decodePairs count ⟨0, 0⟩ input with
      | .error message => .error message
      | .ok (pairs, rest) =>
        if rest = [] then .ok pairs
        else .error "Extra bytes at end of sequence number time mapping"

/-- `DecodeFrom`. A mapping that was empty and has no limits stays in its state. -/
def decodeFrom (input : Bytes) (m : SeqnoToTimeMapping) : Except String Unit × SeqnoToTimeMapping :=
  match decodeImpl input with
  | .error message => (.error message, m)
  | .ok pairs => (.ok (), { m with
      pairs := m.pairs ++ pairs
      enforced := if 0 < m.pairs.length ∨ m.maxTimeSpan < kUnlimited ∨ m.capacity < kUnlimited
        then false else m.enforced })

/-- The part of `Append` that adds the pair, with the result of the call. In the enforced state a
sequence number out of order fails an assertion, and is not added without assertions. -/
def appendPair (p : SeqnoTimePair) (m : SeqnoToTimeMapping) : Bool × List SeqnoTimePair :=
  match m.pairs.getLast? with
  | none => (true, [p])
  | some last =>
    if last.seqno ≤ p.seqno then
      match last.merge p with
      | some merged => (false, m.pairs.dropLast ++ [merged])
      | none => (true, m.pairs ++ [p])
    else if m.enforced = false then (true, m.pairs ++ [p])
    else (false, m.pairs)

/-- `Append`. -/
def append (seqno time : ℕ) (m : SeqnoToTimeMapping) : Bool × SeqnoToTimeMapping :=
  if m.capacity = 0 then (false, m)
  else if seqno ≠ 0 ∧ m.pairs = [] then
    (true, { m with enforced := true, pairs := [⟨seqno, time⟩] })
  else
    let added := if seqno = 0 then (false, m.pairs) else m.appendPair ⟨seqno, time⟩
    let m := { m with pairs := added.2 }
    let m := if m.enforced = false then m.sortAndMerge else m
    (added.1, (m.enforceMaxTimeSpan 0).enforceCapacity false)

end SeqnoToTimeMapping

end BucketLSM
