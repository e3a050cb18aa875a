import BucketLSM.Lib.BitRow

/-!
# Ribbon filters

`util/ribbon_alg.h`: the hashes of the inputs are equations between the bits of a solution, with
coefficients in a band. Banding brings them into a triangular form on the fly, back substitution
finds a solution column by column, and a query computes the result that the solution gives for a
hash. The solution is stored row by row, or interleaved in blocks with a segment for each column,
where the first blocks may have one column less.
-/

namespace BucketLSM.Filter

open BucketLSM.Lib Function List

/-- `kCoeffBits` is `r` and `kResultBits` is `w`. A row of the banding storage. -/
structure Row (r w : ℕ) where
  cr : BitVec r
  rr : BitVec w
deriving DecidableEq

/-- The rows of the banding storage (`LoadRow`, `StoreRow`). -/
abbrev Banding (r w : ℕ) := ℕ → Row r w

/-- A hasher: `GetHash`, `GetStart`, `GetCoeffRow`, `GetResultRowFromHash`,
`GetResultRowFromInput` and `kFirstCoeffAlwaysOne`. -/
structure Hasher (Input Hash : Type) (r w : ℕ) where
  getHash : Input → Hash
  getStart : Hash → ℕ → ℕ
  getCoeffRow : Hash → BitVec r
  getResultRowFromHash : Hash → BitVec w
  getResultRowFromInput : Input → BitVec w
  kFirstCoeffAlwaysOne : Bool

section Model

variable {r w : ℕ} {Input Hash : Type}

/-! ## Banding -/

/-- What `BandingAdd` leaves behind: whether it succeeded, the storage, and the slot for
backtracking. -/
structure Added (r w : ℕ) where
  ok : Bool
  bs : Banding r w
  slot : Option ℕ

/-- The loop of `BandingAdd`. -/
def bandingAddLoop : ℕ → Banding r w → ℕ → BitVec w → BitVec r → Option (Added r w)
  | 0, _, _, _, _ => none
  | fuel + 1, bs, i, rr, cr =>
    if (bs i).cr = 0 then some ⟨true, Function.update bs i ⟨cr, rr⟩, some i⟩
    else
      -- Gaussian row reduction
      let rr := rr ^^^ (bs i).rr
      let cr := cr ^^^ (bs i).cr
      if cr = 0 then some ⟨rr = 0, bs, none⟩
      else
        bandingAddLoop fuel bs (i + countTrailingZeroBits cr) rr (cr >>> countTrailingZeroBits cr)

/-- `BandingAdd`. -/
def bandingAdd (kFirstCoeffAlwaysOne : Bool) (fuel : ℕ) (bs : Banding r w) (start : ℕ)
    (rr : BitVec w) (cr : BitVec r) : Option (Added r w) :=
  if kFirstCoeffAlwaysOne then bandingAddLoop fuel bs start rr cr
  else
    bandingAddLoop fuel bs (start + countTrailingZeroBits cr) rr (cr >>> countTrailingZeroBits cr)

/-- After a failure the rows that were added are cleared. -/
def backtrack (useBacktrack : Bool) (slots : List ℕ) (bs : Banding r w) : Banding r w :=
  if useBacktrack then slots.foldl (fun bs i => Function.update bs i ⟨0, 0⟩) bs else bs

/-- The loop of `BandingAddRange` without prefetch. -/
def addSimple (bh : Hasher Input Hash r w) (numStarts fuel : ℕ) (useBacktrack : Bool) :
    List Input → List ℕ → Banding r w → Option (Bool × Banding r w)
  | [], _, bs => some (true, bs)
  | x :: inputs, slots, bs =>
    let h := bh.getHash x
    match bandingAdd bh.kFirstCoeffAlwaysOne fuel bs (bh.getStart h numStarts)
        (bh.getResultRowFromInput x ||| bh.getResultRowFromHash h) (bh.getCoeffRow h) with
    | none => none
    | some added =>
      let slots := added.slot.toList ++ slots
      if added.ok then addSimple bh numStarts fuel useBacktrack inputs slots added.bs
      else some (false, backtrack useBacktrack slots added.bs)

/-- The loop of `BandingAddRange` with prefetch: the next input is hashed before the current one is
added. -/
def addPipelined (bh : Hasher Input Hash r w) (numStarts fuel : ℕ) (useBacktrack : Bool) :
    List Input → Hash → ℕ → BitVec w → List ℕ → Banding r w → Option (Bool × Banding r w)
  | [], h, start, rr, slots, bs =>
    match bandingAdd bh.kFirstCoeffAlwaysOne fuel bs start (rr ||| bh.getResultRowFromHash h)
        (bh.getCoeffRow h) with
    | none => none
    | some added =>
      if added.ok then some (true, added.bs)
      else some (false, backtrack useBacktrack (added.slot.toList ++ slots) added.bs)
  | x :: inputs, h, start, rr, slots, bs =>
    let nextHash := bh.getHash x
    match bandingAdd bh.kFirstCoeffAlwaysOne fuel bs start (rr ||| bh.getResultRowFromHash h)
        (bh.getCoeffRow h) with
    | none => none
    | some added =>
      let slots := added.slot.toList ++ slots
      if added.ok then
        addPipelined bh numStarts fuel useBacktrack inputs nextHash
          (bh.getStart nextHash numStarts) (bh.getResultRowFromInput x) slots added.bs
      else some (false, backtrack useBacktrack slots added.bs)

/-- `BandingAddRange`. The fuel of the loop of `BandingAdd` is the number of slots. -/
def bandingAddRange (bh : Hasher Input Hash r w) (numStarts : ℕ) (usePrefetch useBacktrack : Bool)
    (inputs : List Input) (bs : Banding r w) : Option (Bool × Banding r w) :=
  match inputs with
  | [] => some (true, bs)
  | x :: rest =>
    let fuel := numStarts + r - 1
    if usePrefetch then
      let h := bh.getHash x
      addPipelined bh numStarts fuel useBacktrack rest h (bh.getStart h numStarts)
        (bh.getResultRowFromInput x) [] bs
    else addSimple bh numStarts fuel useBacktrack inputs [] bs

/-! ## Back substitution -/

/-- `LoadRow` for back substitution: the storage may choose a value for a row without
coefficients. -/
def loadRow (bs : Banding r w) (custom : ℕ → BitVec w) (i : ℕ) : Row r w :=
  if (bs i).cr = 0 then ⟨0, custom i⟩ else bs i

/-- The next bit of a column, before the bits below it. -/
def substColumn (row : Row r w) (j : ℕ) (column : BitVec r) : BitVec r :=
  let tmp := column <<< 1
  let bit := bitParity (tmp &&& row.cr) ^^ row.rr.getLsbD j
  tmp ||| (BitVec.ofBool bit).setWidth r

/-- One step of all columns. -/
def substRow (numColumns : ℕ) (row : Row r w) (state : ℕ → BitVec r) : ℕ → BitVec r :=
  fun j => if j < numColumns then substColumn row j (state j) else state j

/-- A row of the solution: the bits of the columns. -/
def solutionRow (w : ℕ) (state : ℕ → BitVec r) : BitVec w :=
  (List.range w).foldl (fun sr j => sr ||| (BitVec.ofBool ((state j).getLsbD 0)).setWidth w <<< j) 0

/-- The loop of `SimpleBackSubst` over the slots that are left. -/
def simpleLoop (load : ℕ → Row r w) : ℕ → (ℕ → BitVec r) → (ℕ → BitVec w) → ℕ → BitVec w
  | 0, _, solution => solution
  | i + 1, state, solution =>
    let state := substRow w (load i) state
    simpleLoop load i state (Function.update solution i (solutionRow w state))

/-- `SimpleBackSubst`. -/
def simpleBackSubst (numStarts : ℕ) (load : ℕ → Row r w) (solution : ℕ → BitVec w) : ℕ → BitVec w :=
  simpleLoop load (numStarts + r - 1) (fun _ => 0) solution

/-- The loop of `BackSubstBlock` over the slots that are left. -/
def backSubstRows (numColumns : ℕ) (load : ℕ → Row r w) (startSlot : ℕ) :
    ℕ → (ℕ → BitVec r) → ℕ → BitVec r
  | 0, state => state
  | k + 1, state =>
    backSubstRows numColumns load startSlot k (substRow numColumns (load (startSlot + k)) state)

/-- `BackSubstBlock`. -/
def backSubstBlock (numColumns : ℕ) (load : ℕ → Row r w) (startSlot : ℕ)
    (state : ℕ → BitVec r) : ℕ → BitVec r :=
  backSubstRows numColumns load startSlot r state

/-- The columns, the segments and the number of the next segment in `InterleavedBackSubst`. -/
structure Interleaving (r : ℕ) where
  state : ℕ → BitVec r
  segments : ℕ → BitVec r
  segmentNum : ℕ

/-- The segments of a block are stored. -/
def storeSegments (numColumns segmentNum : ℕ) (state segments : ℕ → BitVec r) : ℕ → BitVec r :=
  (List.range numColumns).foldl
    (fun segments i => Function.update segments (segmentNum + i) (state i)) segments

/-- A loop of `InterleavedBackSubst` over the blocks that are left, down to block `base`. -/
def substBlocks (numColumns : ℕ) (load : ℕ → Row r w) (base : ℕ) :
    ℕ → Interleaving r → Interleaving r
  | 0, s => s
  | n + 1, s =>
    let state := backSubstBlock numColumns load ((base + n) * r) s.state
    let segmentNum := s.segmentNum - numColumns
    substBlocks numColumns load base n
      ⟨state, storeSegments numColumns segmentNum state s.segments, segmentNum⟩

/-- The shape of an interleaved solution: `GetUpperNumColumns`, `GetUpperStartBlock` and
`GetNumSegments`. -/
structure Shape where
  upperNumColumns : ℕ
  upperStartBlock : ℕ
  numSegments : ℕ
deriving DecidableEq

/-- `InterleavedBackSubst`. -/
def interleavedBackSubst (shape : Shape) (numStarts : ℕ) (load : ℕ → Row r w)
    (segments : ℕ → BitVec r) : ℕ → BitVec r :=
  let numBlocks := (numStarts + r - 1) / r
  if shape.upperNumColumns = 0 then segments
  else
    let upper := substBlocks shape.upperNumColumns load shape.upperStartBlock
      (numBlocks - shape.upperStartBlock) ⟨fun _ => 0, segments, shape.numSegments⟩
    (substBlocks (shape.upperNumColumns - 1) load 0 (min numBlocks shape.upperStartBlock)
      upper).segments

/-! ## Queries -/

/-- `SimpleQueryHelper`. -/
def simpleQueryHelper (startSlot : ℕ) (cr : BitVec r) (solution : ℕ → BitVec w) : BitVec w :=
  (List.range r).foldl (fun result i =>
      result ^^^ (solution (startSlot + i) &&& (0 - ((cr >>> i).setWidth w &&& 1))))
    0

/-- `SimpleFilterQuery`. -/
def simpleFilterQuery (bh : Hasher Input Hash r w) (numStarts : ℕ) (solution : ℕ → BitVec w)
    (key : Input) : Bool :=
  let hash := bh.getHash key
  bh.getResultRowFromHash hash =
    simpleQueryHelper (bh.getStart hash numStarts) (bh.getCoeffRow hash) solution

/-- What `InterleavedPrepareQuery` saves. -/
structure Prepared (Hash : Type) where
  hash : Hash
  segmentNum : ℕ
  numColumns : ℕ
  startBit : ℕ

/-- `InterleavedPrepareQuery`. -/
def interleavedPrepareQuery (bh : Hasher Input Hash r w) (shape : Shape) (numStarts : ℕ)
    (key : Input) : Prepared Hash :=
  let hash := bh.getHash key
  let startSlot := bh.getStart hash numStarts
  let startBlockNum := startSlot / r
  { hash
    segmentNum := startBlockNum * shape.upperNumColumns - min startBlockNum shape.upperStartBlock
    numColumns := shape.upperNumColumns - if startBlockNum < shape.upperStartBlock then 1 else 0
    startBit := startSlot % r }

/-- `InterleavedFilterQuery`. -/
def interleavedFilterQuery (bh : Hasher Input Hash r w) (segments : ℕ → BitVec r)
    (q : Prepared Hash) : Bool :=
  let cr := bh.getCoeffRow q.hash
  let expected := bh.getResultRowFromHash q.hash
  if q.startBit = 0 then
    (List.range q.numColumns).all fun i =>
      bitParity (segments (q.segmentNum + i) &&& cr) == expected.getLsbD i
  else
    let crLeft := cr <<< q.startBit
    let crRight := cr >>> (r - q.startBit)
    (List.range q.numColumns).all fun i =>
      bitParity ((segments (q.segmentNum + i) &&& crLeft) ^^^
        (segments (q.segmentNum + q.numColumns + i) &&& crRight)) == expected.getLsbD i

end Model

/-! ## The equations -/

section Banding

variable {r w : ℕ} {Input Hash : Type} {numSlots : ℕ} {bs : Banding r w}

/-- All coefficients of a row are at slots. -/
def InRange (numSlots : ℕ) (cr : BitVec r) (i : ℕ) : Prop :=
  ∀ k, cr.getLsbD k = true → i + k < numSlots

/-- A row that is used begins with its slot, and its coefficients are at slots. -/
def WellFormed (numSlots : ℕ) (bs : Banding r w) : Prop :=
  ∀ i, (bs i).cr ≠ 0 → (bs i).cr.getLsbD 0 = true ∧ InRange numSlots (bs i).cr i

/-- The columns of a solution satisfy an equation. -/
def Satisfies (columns : ℕ → ℕ → Bool) (start : ℕ) (cr : BitVec r) (rr : BitVec w) : Prop :=
  ∀ j, dot cr start (columns j) = bit (rr.getLsbD j)

/-- The columns of a solution satisfy all rows. -/
def Solves (columns : ℕ → ℕ → Bool) (bs : Banding r w) : Prop :=
  ∀ i, (bs i).cr ≠ 0 → Satisfies columns i (bs i).cr (bs i).rr

variable {cr : BitVec r}

lemma ne_zero_of_getLsbD {k : ℕ} (h : cr.getLsbD k = true) : cr ≠ 0 := by
  rintro rfl
  simp at h

/-- What is left of a row after the row of its slot was added to it. -/
lemma reduce_spec {cr' : BitVec r} {i : ℕ} (hodd : cr.getLsbD 0 = true)
    (hodd' : cr'.getLsbD 0 = true) (hrange : InRange numSlots cr i)
    (hrange' : InRange numSlots cr' i) (hne : cr ^^^ cr' ≠ 0) :
    0 < countTrailingZeroBits (cr ^^^ cr') ∧
    ((cr ^^^ cr') >>> countTrailingZeroBits (cr ^^^ cr')).getLsbD 0 = true ∧
    InRange numSlots ((cr ^^^ cr') >>> countTrailingZeroBits (cr ^^^ cr'))
      (i + countTrailingZeroBits (cr ^^^ cr')) := by
  obtain ⟨-, hbit, -⟩ := countTrailingZeroBits_spec hne
  refine ⟨Nat.pos_of_ne_zero fun hzero => ?_, ?_, fun k hk => ?_⟩
  · rw [hzero, BitVec.getLsbD_xor, hodd, hodd'] at hbit
    cases hbit
  · rw [BitVec.getLsbD_ushiftRight, add_zero]
    exact hbit
  · rw [BitVec.getLsbD_ushiftRight, BitVec.getLsbD_xor] at hk
    rw [add_assoc]
    cases hcr : cr.getLsbD (countTrailingZeroBits (cr ^^^ cr') + k) with
    | true => exact hrange _ hcr
    | false =>
      rw [hcr, Bool.false_xor] at hk
      exact hrange' _ hk

/-- The rows are in the form that banding keeps, and the rows that are not used are zero. -/
structure Banded (numSlots : ℕ) (bs : Banding r w) : Prop where
  wellFormed : WellFormed numSlots bs
  clean : ∀ i, (bs i).cr = 0 → bs i = ⟨0, 0⟩

/-- An equation is added: if the call succeeds, the rows afterwards have the solutions of the rows
before and the equation, and otherwise there are none. At most one row changes, an empty one. -/
structure Adds (numSlots : ℕ) (bs : Banding r w) (i : ℕ) (cr : BitVec r) (rr : BitVec w)
    (added : Added r w) : Prop where
  banded : Banded numSlots added.bs
  solves : ∀ columns,
    Solves columns bs ∧ Satisfies columns i cr rr ↔ added.ok = true ∧ Solves columns added.bs
  stored : added.slot.elim (added.bs = bs) fun i =>
    bs i = ⟨0, 0⟩ ∧ ∃ row, added.bs = update bs i row

lemma Adds.of_iff {i i' : ℕ} {cr cr' : BitVec r} {rr rr' : BitVec w} {added : Added r w}
    (h : Adds numSlots bs i cr rr added) (hiff : ∀ columns, Solves columns bs →
      (Satisfies columns i' cr' rr' ↔ Satisfies columns i cr rr)) :
    Adds numSlots bs i' cr' rr' added :=
  ⟨h.banded, fun columns => (and_congr_right (hiff columns)).trans (h.solves columns), h.stored⟩

/-- Zero bits at the front of a row do not matter. -/
lemma satisfies_shift (columns : ℕ → ℕ → Bool) (i : ℕ) (hne : cr ≠ 0) (rr : BitVec w) :
    Satisfies columns (i + countTrailingZeroBits cr) (cr >>> countTrailingZeroBits cr) rr ↔
      Satisfies columns i cr rr := by
  simp only [Satisfies, dot_shift (countTrailingZeroBits_spec hne).2.2]

lemma satisfies_xor {columns : ℕ → ℕ → Bool} {i : ℕ}
    (hrow : Satisfies columns i (bs i).cr (bs i).rr) (rr : BitVec w) : Satisfies columns i cr rr ↔
      Satisfies columns i (cr ^^^ (bs i).cr) (rr ^^^ (bs i).rr) := by
  refine forall_congr' fun j => ?_
  rw [dot_xor, BitVec.getLsbD_xor, bit_xor, hrow j, add_left_inj]

lemma satisfies_zero (columns : ℕ → ℕ → Bool) (i : ℕ) (rr : BitVec w) :
    Satisfies columns i (0 : BitVec r) rr ↔ rr = 0 := by
  have hdot (j : ℕ) : dot (0 : BitVec r) i (columns j) = bit false := by simp [dot]
  simp only [Satisfies, hdot, bit_injective.eq_iff]
  constructor
  · intro h
    exact BitVec.eq_of_getLsbD_eq fun j _ => by simpa using (h j).symm
  · rintro rfl j
    simp

lemma solves_update {i : ℕ} (hempty : (bs i).cr = 0) (hne : cr ≠ 0) (rr : BitVec w)
    (columns : ℕ → ℕ → Bool) : Solves columns bs ∧ Satisfies columns i cr rr ↔
      Solves columns (update bs i ⟨cr, rr⟩) := by
  constructor
  · rintro ⟨hsolves, hrow⟩ i' hi'
    by_cases heq : i' = i
    · subst heq
      simpa using hrow
    · simp only [update_of_ne heq] at hi' ⊢
      exact hsolves i' hi'
  · intro h
    refine ⟨fun i' hi' => ?_, by simpa using h i (by simpa using hne)⟩
    have heq : i' ≠ i := fun heq => hi' (heq ▸ hempty)
    have hrow := h i'
    simp only [update_of_ne heq] at hrow
    exact hrow hi'

lemma bandingAddLoop_spec {fuel i : ℕ} (rr : BitVec w) (h : Banded numSlots bs)
    (hodd : cr.getLsbD 0 = true) (hrange : InRange numSlots cr i) (hfuel : numSlots ≤ i + fuel) :
    ∃ added, bandingAddLoop fuel bs i rr cr = some added ∧ Adds numSlots bs i cr rr added := by
  induction fuel generalizing i rr cr with
  | zero =>
    have hlt := hrange 0 hodd
    omega
  | succ fuel ih =>
    rw [bandingAddLoop]
    by_cases hempty : (bs i).cr = 0
    · have hne := ne_zero_of_getLsbD hodd
      rw [if_pos hempty]
      refine ⟨_, rfl, ⟨fun i' hi' => ?_, fun i' hi' => ?_⟩, fun columns => ?_,
        h.clean i hempty, _, rfl⟩
      · by_cases heq : i' = i
        · subst heq
          simp only [update_self] at hi' ⊢
          exact ⟨hodd, hrange⟩
        · simp only [update_of_ne heq] at hi' ⊢
          exact h.wellFormed i' hi'
      · by_cases heq : i' = i
        · subst heq
          simp only [update_self] at hi'
          exact absurd hi' hne
        · simp only [update_of_ne heq] at hi' ⊢
          exact h.clean i' hi'
      · rw [solves_update hempty hne]
        simp
    · rw [if_neg hempty]
      obtain ⟨hodd', hrange'⟩ := h.wellFormed i hempty
      by_cases hzero : cr ^^^ (bs i).cr = 0
      · simp only [hzero, if_true]
        refine ⟨_, rfl, h, fun columns => ?_, rfl⟩
        rw [and_comm, and_congr_left fun hsolves => satisfies_xor (hsolves i hempty) rr, hzero,
          satisfies_zero, decide_eq_true_eq]
      · obtain ⟨hpos, hodd₁, hrange₁⟩ := reduce_spec hodd hodd' hrange hrange' hzero
        obtain ⟨added, hadded, hadds⟩ := ih (rr ^^^ (bs i).rr) hodd₁ hrange₁ (by omega)
        refine ⟨added, ?_, hadds.of_iff fun columns hsolves => ?_⟩
        · simp only [hzero, if_false]
          exact hadded
        · rw [satisfies_shift columns i hzero]
          exact satisfies_xor (hsolves i hempty) rr

/-- What banding asks of a hasher: its starts are below the number of starts, its rows are not
zero, or odd where that is promised. -/
structure BandingHasher (bh : Hasher Input Hash r w) (numStarts : ℕ) : Prop where
  start_lt : ∀ h, bh.getStart h numStarts < numStarts
  coeffRow_ne_zero : ∀ h, bh.getCoeffRow h ≠ 0
  coeffRow_odd : bh.kFirstCoeffAlwaysOne = true → ∀ h, (bh.getCoeffRow h).getLsbD 0 = true

/-- The hasher of a filter stores nothing from an input but its hash. -/
structure FilterHasher (bh : Hasher Input Hash r w) (numStarts : ℕ) : Prop
    extends BandingHasher bh numStarts where
  input_zero : ∀ x, bh.getResultRowFromInput x = 0

lemma bandingAdd_spec {kFirstCoeffAlwaysOne : Bool} {numStarts start : ℕ} (rr : BitVec w)
    (h : Banded (numStarts + r - 1) bs) (hstart : start < numStarts) (hne : cr ≠ 0)
    (hodd : kFirstCoeffAlwaysOne = true → cr.getLsbD 0 = true) :
    ∃ added, bandingAdd kFirstCoeffAlwaysOne (numStarts + r - 1) bs start rr cr = some added ∧
      Adds (numStarts + r - 1) bs start cr rr added := by
  have hrange : InRange (numStarts + r - 1) cr start := by
    intro k hk
    have hlt := BitVec.lt_of_getLsbD hk
    omega
  rw [bandingAdd]
  by_cases hfirst : kFirstCoeffAlwaysOne = true
  · rw [if_pos hfirst]
    exact bandingAddLoop_spec rr h (hodd hfirst) hrange (by omega)
  · rw [if_neg hfirst]
    obtain ⟨hlt, hbit, hlow⟩ := countTrailingZeroBits_spec hne
    have hodd₁ : (cr >>> countTrailingZeroBits cr).getLsbD 0 = true := by
      rw [BitVec.getLsbD_ushiftRight, add_zero]
      exact hbit
    have hrange₁ : InRange (numStarts + r - 1) (cr >>> countTrailingZeroBits cr)
        (start + countTrailingZeroBits cr) := by
      intro k hk
      rw [BitVec.getLsbD_ushiftRight] at hk
      rw [add_assoc]
      exact hrange _ hk
    obtain ⟨added, hadded, hadds⟩ := bandingAddLoop_spec rr h hodd₁ hrange₁ (Nat.le_add_left _ _)
    exact ⟨added, hadded, hadds.of_iff fun columns _ => (satisfies_shift columns start hne rr).symm⟩

section Range

variable {bh : Hasher Input Hash r w} {numStarts : ℕ}

/-- The equation of an input holds. -/
def Meets (bh : Hasher Input Hash r w) (numStarts : ℕ) (columns : ℕ → ℕ → Bool) (x : Input) :
    Prop :=
  Satisfies columns (bh.getStart (bh.getHash x) numStarts) (bh.getCoeffRow (bh.getHash x))
    (bh.getResultRowFromInput x ||| bh.getResultRowFromHash (bh.getHash x))

/-- The slots that were filled are empty again. -/
lemma Adds.backtrack {i : ℕ} {rr : BitVec w} {added : Added r w}
    (h : Adds numSlots bs i cr rr added) (slots : List ℕ) :
    backtrack true (added.slot.toList ++ slots) added.bs = backtrack true slots bs := by
  have hstored := h.stored
  cases hslot : added.slot with
  | none =>
    rw [hslot] at hstored
    exact congrArg (Filter.backtrack true slots) hstored
  | some k =>
    rw [hslot] at hstored
    obtain ⟨hempty, row, hrow⟩ := hstored
    simp only [Filter.backtrack, if_true, Option.toList_some, singleton_append, foldl_cons, hrow,
      update_idem, ← hempty, update_eq_self]

/-- The inputs are added, also those that are redundant, or their equations have no solution. -/
lemma addSimple_spec (hasher : BandingHasher bh numStarts) (useBacktrack : Bool)
    (inputs : List Input) (slots : List ℕ) (h : Banded (numStarts + r - 1) bs) :
    ∃ ok bs', addSimple bh numStarts (numStarts + r - 1) useBacktrack inputs slots bs =
      some (ok, bs') ∧ (ok = true → Banded (numStarts + r - 1) bs') ∧
      (∀ columns, Solves columns bs ∧ (∀ x ∈ inputs, Meets bh numStarts columns x) ↔
        ok = true ∧ Solves columns bs') ∧
      (ok = false → useBacktrack = true → bs' = backtrack true slots bs) := by
  induction inputs generalizing slots bs with
  | nil => exact ⟨true, bs, rfl, fun _ => h, by simp, by simp⟩
  | cons x inputs ih =>
    obtain ⟨added, hadded, hadds⟩ :=
      bandingAdd_spec (bh.getResultRowFromInput x ||| bh.getResultRowFromHash (bh.getHash x)) h
        (hasher.start_lt (bh.getHash x)) (hasher.coeffRow_ne_zero (bh.getHash x))
        (fun hfirst => hasher.coeffRow_odd hfirst (bh.getHash x))
    have hsplit (columns : ℕ → ℕ → Bool) :
        (Solves columns bs ∧ ∀ y ∈ x :: inputs, Meets bh numStarts columns y) ↔
          added.ok = true ∧ Solves columns added.bs ∧
            ∀ y ∈ inputs, Meets bh numStarts columns y := by
      rw [forall_mem_cons, ← and_assoc, ← and_assoc]
      exact and_congr_left fun _ => hadds.solves columns
    rw [addSimple]
    simp only [hadded]
    by_cases hok : added.ok = true
    · rw [if_pos hok]
      obtain ⟨ok, bs', hrest, hbanded, hsolves, hback⟩ :=
        ih (added.slot.toList ++ slots) hadds.banded
      refine ⟨ok, bs', hrest, hbanded, fun columns => ?_, fun hfail huse => ?_⟩
      · rw [hsplit, hok, hsolves]
        simp
      · rw [hback hfail huse, hadds.backtrack]
    · rw [if_neg hok]
      refine ⟨false, _, rfl, by simp, fun columns => ?_, fun _ huse => ?_⟩
      · rw [hsplit]
        simp [hok]
      · rw [huse, hadds.backtrack]

/-- The order in which the pipeline hashes does not matter. -/
lemma addPipelined_eq (bh : Hasher Input Hash r w) (numStarts fuel : ℕ) (useBacktrack : Bool)
    (inputs : List Input) (x : Input) (slots : List ℕ) (bs : Banding r w) :
    addPipelined bh numStarts fuel useBacktrack inputs (bh.getHash x)
      (bh.getStart (bh.getHash x) numStarts) (bh.getResultRowFromInput x) slots bs =
      addSimple bh numStarts fuel useBacktrack (x :: inputs) slots bs := by
  induction inputs generalizing x slots bs with
  | nil =>
    rw [addPipelined, addSimple]
    rfl
  | cons y inputs ih =>
    rw [addPipelined, addSimple]
    cases bandingAdd bh.kFirstCoeffAlwaysOne fuel bs (bh.getStart (bh.getHash x) numStarts)
        (bh.getResultRowFromInput x ||| bh.getResultRowFromHash (bh.getHash x))
        (bh.getCoeffRow (bh.getHash x)) with
    | none => rfl
    | some added =>
      simp only
      rw [ih]

lemma bandingAddRange_spec (hasher : BandingHasher bh numStarts) (usePrefetch useBacktrack : Bool)
    (inputs : List Input) (h : Banded (numStarts + r - 1) bs) :
    ∃ ok bs', bandingAddRange bh numStarts usePrefetch useBacktrack inputs bs = some (ok, bs') ∧
      (ok = true → Banded (numStarts + r - 1) bs') ∧
      (∀ columns, Solves columns bs ∧ (∀ x ∈ inputs, Meets bh numStarts columns x) ↔
        ok = true ∧ Solves columns bs') ∧ (ok = false → useBacktrack = true → bs' = bs) := by
  have hsimple : bandingAddRange bh numStarts usePrefetch useBacktrack inputs bs =
      addSimple bh numStarts (numStarts + r - 1) useBacktrack inputs [] bs := by
    cases inputs with
    | nil => rfl
    | cons x inputs => simp only [bandingAddRange, addPipelined_eq, ite_self]
  rw [hsimple]
  exact addSimple_spec hasher useBacktrack inputs [] h

lemma banded_empty {numSlots : ℕ} : Banded numSlots (fun _ => ⟨0, 0⟩ : Banding r w) :=
  ⟨fun _ hi => absurd rfl hi, fun _ _ => rfl⟩

/-- The storage after the inputs `added` have been added to an empty one, in some ranges. -/
inductive Reached (bh : Hasher Input Hash r w) (numStarts : ℕ) : List Input → Banding r w → Prop
  | empty : Reached bh numStarts [] fun _ => ⟨0, 0⟩
  | add {added inputs : List Input} {bs bs' : Banding r w} {usePrefetch useBacktrack : Bool}
      (h : Reached bh numStarts added bs)
      (hadd : bandingAddRange bh numStarts usePrefetch useBacktrack inputs bs = some (true, bs')) :
      Reached bh numStarts (added ++ inputs) bs'

lemma Reached.spec (hasher : BandingHasher bh numStarts) {added : List Input}
    (h : Reached bh numStarts added bs) : Banded (numStarts + r - 1) bs ∧
      ∀ columns, Solves columns bs ↔ ∀ x ∈ added, Meets bh numStarts columns x := by
  induction h with
  | empty => exact ⟨banded_empty, fun columns => by simp [Solves]⟩
  | @add added inputs bs bs' usePrefetch useBacktrack _ hadd ih =>
    obtain ⟨ok, bs'', hrange, hbanded, hsolves, -⟩ :=
      bandingAddRange_spec hasher usePrefetch useBacktrack inputs ih.1
    rw [hadd] at hrange
    cases hrange
    refine ⟨hbanded rfl, fun columns => ?_⟩
    simpa [ih.2, or_imp, forall_and] using (hsolves columns).symm

end Range

end Banding

/-! ## The solution -/

section Solution

variable {r w : ℕ} {load : ℕ → Row r w} {numSlots : ℕ}

/-- A column after the last rows have been processed. -/
def columnState (load : ℕ → Row r w) (numSlots j : ℕ) : ℕ → BitVec r
  | 0 => 0
  | n + 1 => substColumn (load (numSlots - (n + 1))) j (columnState load numSlots j n)

/-- The bits of the solution. -/
def solutionColumn (load : ℕ → Row r w) (numSlots j i : ℕ) : Bool :=
  decide (i < numSlots) && (columnState load numSlots j (numSlots - i)).getLsbD 0

variable {k n j : ℕ}

lemma getLsbD_substColumn_succ (row : Row r w) (j : ℕ) (column : BitVec r) (hk : k + 1 < r) :
    (substColumn row j column).getLsbD (k + 1) = column.getLsbD k := by
  simp only [substColumn]
  rw [BitVec.getLsbD_or, BitVec.getLsbD_shiftLeft]
  simp [hk]

lemma getLsbD_substColumn_zero (row : Row r w) (j : ℕ) (column : BitVec r) (hr : 0 < r) :
    (substColumn row j column).getLsbD 0 =
      (bitParity (column <<< 1 &&& row.cr) ^^ row.rr.getLsbD j) := by
  simp [substColumn, hr]

lemma getLsbD_shiftLeft_one_succ (column : BitVec r) (hk : k + 1 < r) :
    (column <<< 1).getLsbD (k + 1) = column.getLsbD k := by
  rw [BitVec.getLsbD_shiftLeft]
  simp [hk]

/-- The new bit makes the product of a row that begins with it the result of the row. -/
lemma bitParity_substColumn {row : Row r w} (hodd : row.cr.getLsbD 0 = true) (j : ℕ)
    (column : BitVec r) :
    bit (bitParity (substColumn row j column &&& row.cr)) = bit (row.rr.getLsbD j) := by
  obtain ⟨m, rfl⟩ : ∃ m, r = m + 1 := ⟨r - 1, by have := BitVec.lt_of_getLsbD hodd; omega⟩
  have htail : ∀ k ∈ Finset.range m,
      bit ((substColumn row j column).getLsbD (k + 1)) * bit (row.cr.getLsbD (k + 1)) =
        bit ((column <<< 1).getLsbD (k + 1)) * bit (row.cr.getLsbD (k + 1)) := by
    intro k hk
    have hlt : k + 1 < m + 1 := Nat.succ_lt_succ (Finset.mem_range.1 hk)
    rw [getLsbD_substColumn_succ _ _ _ hlt, getLsbD_shiftLeft_one_succ column hlt]
  have hold : bit (bitParity (column <<< 1 &&& row.cr)) = ∑ k ∈ Finset.range m,
        bit ((column <<< 1).getLsbD (k + 1)) * bit (row.cr.getLsbD (k + 1)) := by
    rw [bit_bitParity_and, Finset.sum_range_succ', add_eq_left, BitVec.getLsbD_shiftLeft]
    simp
  rw [bit_bitParity_and, Finset.sum_range_succ', Finset.sum_congr rfl htail, ← hold, hodd,
    getLsbD_substColumn_zero _ _ _ (Nat.succ_pos m), bit_true, mul_one, bit_xor, ← add_assoc,
    bit_add_self, zero_add]

/-- A column holds the bits of the solution from the last row that was processed. -/
lemma columnState_window (j : ℕ) (hn : n ≤ numSlots) (hk : k < r) :
    (columnState load numSlots j n).getLsbD k =
      solutionColumn load numSlots j (numSlots - n + k) := by
  induction n generalizing k with
  | zero =>
    have hge : ¬ numSlots - 0 + k < numSlots := by omega
    simp only [columnState, solutionColumn, hge, decide_false, Bool.false_and]
    exact BitVec.getLsbD_zero
  | succ n ih =>
    cases k with
    | zero =>
      have hlt : numSlots - (n + 1) < numSlots := by omega
      rw [solutionColumn, add_zero, show numSlots - (numSlots - (n + 1)) = n + 1 by omega]
      simp [hlt]
    | succ k =>
      rw [columnState, getLsbD_substColumn_succ _ _ _ hk, ih (by omega) (by omega)]
      congr 1
      omega

/-- The solution satisfies a row that begins with its slot. -/
lemma satisfies_solutionColumn {i : ℕ} (hi : i < numSlots) (hodd : (load i).cr.getLsbD 0 = true) :
    Satisfies (solutionColumn load numSlots) i (load i).cr (load i).rr := by
  intro j
  have hr : 0 < r := BitVec.lt_of_getLsbD hodd
  obtain ⟨n, hn⟩ : ∃ n, numSlots - i = n + 1 := ⟨numSlots - i - 1, by omega⟩
  have hcolumn : columnState load numSlots j (n + 1) =
      substColumn (load i) j (columnState load numSlots j n) := by
    rw [columnState, show numSlots - (n + 1) = i by omega]
  have hwindow : ∀ k < r, (columnState load numSlots j (n + 1)).getLsbD k =
      solutionColumn load numSlots j (i + k) := by
    intro k hk
    rw [columnState_window j (by omega) hk, show numSlots - (n + 1) = i by omega]
  rw [← bit_bitParity_window hwindow, hcolumn]
  exact bitParity_substColumn hodd j _

/-- The solution of the rows that banding leaves behind. -/
lemma solves_solutionColumn {bs : Banding r w} (wf : WellFormed numSlots bs)
    (custom : ℕ → BitVec w) : Solves (solutionColumn (loadRow bs custom) numSlots) bs := by
  intro i hi
  obtain ⟨hodd, hrange⟩ := wf i hi
  have hload : loadRow bs custom i = bs i := if_neg hi
  rw [← hload]
  exact satisfies_solutionColumn (hrange 0 hodd) (by rw [hload]; exact hodd)

/-! ## Storing it row by row -/

lemma getLsbD_foldl_or (f : ℕ → Bool) (n : ℕ) (hj : j < w) :
    ((List.range n).foldl (fun sr j => sr ||| (BitVec.ofBool (f j)).setWidth w <<< j) 0).getLsbD
      j = (decide (j < n) && f j) := by
  induction n with
  | zero => simp
  | succ n ih =>
    rw [range_succ, foldl_append, foldl_cons, foldl_nil, BitVec.getLsbD_or, ih,
      BitVec.getLsbD_shiftLeft]
    rcases Nat.lt_trichotomy j n with hlt | rfl | hgt
    · simp [hlt, hlt.trans n.lt_succ_self]
    · simp [hj, Nat.zero_lt_of_lt hj]
    · have hne : j - n ≠ 0 := by omega
      have h₁ : ¬ j < n := by omega
      have h₂ : ¬ j < n + 1 := by omega
      simp [h₁, h₂, hne]

lemma getLsbD_solutionRow (state : ℕ → BitVec r) (hj : j < w) :
    (solutionRow w state).getLsbD j = (state j).getLsbD 0 := by
  rw [solutionRow, getLsbD_foldl_or _ _ hj]
  simp [hj]

lemma simpleLoop_spec (hn : n ≤ numSlots) (hr : 0 < r) {state : ℕ → BitVec r}
    (hstate : ∀ j < w, state j = columnState load numSlots j (numSlots - n))
    (solution : ℕ → BitVec w) (i : ℕ) : (n ≤ i → simpleLoop load n state solution i = solution i) ∧
    (i < n → ∀ j < w, (simpleLoop load n state solution i).getLsbD j =
      solutionColumn load numSlots j i) := by
  induction n generalizing state solution with
  | zero => exact ⟨fun _ => rfl, fun h => absurd h (Nat.not_lt_zero i)⟩
  | succ n ih =>
    have hstate' : ∀ j < w, substRow w (load n) state j =
        columnState load numSlots j (numSlots - n) := by
      intro j hj
      rw [substRow, if_pos hj, hstate j hj, show numSlots - n = numSlots - (n + 1) + 1 by omega,
        columnState, show numSlots - (numSlots - (n + 1) + 1) = n by omega]
    rw [simpleLoop]
    obtain ⟨habove, hbelow⟩ := ih (by omega) hstate'
      (update solution n (solutionRow w (substRow w (load n) state)))
    refine ⟨fun hi => ?_, fun hi j hj => ?_⟩
    · rw [habove (by omega), update_of_ne (by omega)]
    · rcases Nat.lt_succ_iff_lt_or_eq.1 hi with hlt | rfl
      · exact hbelow hlt j hj
      · rw [habove le_rfl, update_self, getLsbD_solutionRow _ hj, hstate' j hj,
          columnState_window j (Nat.sub_le _ _) hr, show numSlots - (numSlots - i) + 0 = i by omega]

/-- The mask that selects a row of the solution. -/
lemma getLsbD_mask (cr : BitVec r) (i : ℕ) (hj : j < w) :
    (0 - ((cr >>> i).setWidth w &&& 1)).getLsbD j = cr.getLsbD i := by
  have hw : 0 < w := Nat.zero_lt_of_lt hj
  have hlow : ((cr >>> i).setWidth w &&& 1) = (BitVec.ofBool (cr.getLsbD i)).setWidth w := by
    refine (BitVec.and_one_eq_setWidth_ofBool_getLsbD).trans ?_
    rw [BitVec.getLsbD_setWidth, BitVec.getLsbD_ushiftRight, add_zero]
    simp [hw]
  rw [hlow]
  cases cr.getLsbD i with
  | false => simp
  | true =>
    have hone : (BitVec.ofBool true).setWidth w = 1#w := by
      refine BitVec.eq_of_getLsbD_eq fun k hk => ?_
      simp [hk]
    have hall : 0#w - 1#w = BitVec.allOnes w := by
      rw [BitVec.zero_sub, BitVec.neg_one_eq_allOnes]
    rw [hone, show (0 : BitVec w) - 1#w = BitVec.allOnes w from hall]
    simp [hj]

/-- A query adds the rows of the solution that the coefficients select. -/
lemma bit_simpleQueryHelper (startSlot : ℕ) (cr : BitVec r) (solution : ℕ → BitVec w) (hj : j < w)
    : bit ((simpleQueryHelper startSlot cr solution).getLsbD j) =
      dot cr startSlot fun i => (solution i).getLsbD j := by
  have hfold : ∀ n, bit (((List.range n).foldl (fun result i =>
      result ^^^ (solution (startSlot + i) &&& (0 - ((cr >>> i).setWidth w &&& 1)))) 0).getLsbD j) =
      ∑ k ∈ Finset.range n, bit (cr.getLsbD k) * bit ((solution (startSlot + k)).getLsbD j) := by
    intro n
    induction n with
    | zero => simp
    | succ n ih =>
      rw [List.range_succ, List.foldl_append, List.foldl_cons, List.foldl_nil, BitVec.getLsbD_xor,
        bit_xor, ih, Finset.sum_range_succ, BitVec.getLsbD_and, getLsbD_mask cr n hj, bit_and,
        mul_comm (bit (cr.getLsbD n))]
  exact hfold r

/-- **A solution that is stored row by row gives the result of every equation.** -/
lemma simpleQueryHelper_eq {numStarts start : ℕ} (hstart : start < numStarts) {cr : BitVec r}
    {rr : BitVec w} (h : Satisfies (solutionColumn load (numStarts + r - 1)) start cr rr)
    (solution : ℕ → BitVec w) :
    simpleQueryHelper start cr (simpleBackSubst numStarts load solution) = rr := by
  refine BitVec.eq_of_getLsbD_eq fun j hj => bit_injective ?_
  rw [bit_simpleQueryHelper _ _ _ hj, ← h j, dot, dot]
  refine Finset.sum_congr rfl fun k hk => ?_
  have hk' := Finset.mem_range.1 hk
  have hzero : ∀ j < w, (fun _ => 0 : ℕ → BitVec r) j = columnState load (numStarts + r - 1) j
      (numStarts + r - 1 - (numStarts + r - 1)) := by
    intro j _
    rw [Nat.sub_self]
    rfl
  rw [simpleBackSubst,
    (simpleLoop_spec le_rfl (by omega) hzero solution (start + k)).2 (by omega) j hj]

/-! ## Storing it in blocks -/

lemma backSubstRows_spec {numColumns startSlot : ℕ} (hn : startSlot + n ≤ numSlots)
    {state : ℕ → BitVec r}
    (hstate : ∀ j < numColumns, state j = columnState load numSlots j (numSlots - (startSlot + n)))
    (hj : j < numColumns) : backSubstRows numColumns load startSlot n state j =
      columnState load numSlots j (numSlots - startSlot) := by
  induction n generalizing state with
  | zero => exact hstate j hj
  | succ n ih =>
    rw [backSubstRows]
    refine ih (by omega) fun j hj => ?_
    rw [substRow, if_pos hj, hstate j hj,
      show numSlots - (startSlot + n) = numSlots - (startSlot + (n + 1)) + 1 by omega, columnState,
      show numSlots - (numSlots - (startSlot + (n + 1)) + 1) = startSlot + n by omega]

lemma storeSegments_apply (numColumns segmentNum : ℕ) (state segments : ℕ → BitVec r) (k : ℕ) :
    storeSegments numColumns segmentNum state segments k =
      if segmentNum ≤ k ∧ k < segmentNum + numColumns then state (k - segmentNum)
      else segments k := by
  induction numColumns with
  | zero =>
    rw [if_neg (by omega)]
    rfl
  | succ n ih =>
    rw [storeSegments, range_succ, foldl_append, foldl_cons, foldl_nil, update_apply]
    by_cases hk : k = segmentNum + n
    · rw [if_pos hk, if_pos (by omega), hk, Nat.add_sub_cancel_left]
    · rw [if_neg hk]
      refine ih.trans ?_
      by_cases hlt : segmentNum ≤ k ∧ k < segmentNum + n
      · rw [if_pos hlt, if_pos (by omega)]
      · rw [if_neg hlt, if_neg (by omega)]

/-- The blocks from `base` are stored with all their columns, and the segments after them stay. -/
lemma substBlocks_spec {numColumns base offset : ℕ} (hn : (base + n) * r ≤ numSlots)
    {s : Interleaving r} (hsegment : s.segmentNum = offset + n * numColumns)
    (hstate : ∀ j < numColumns, s.state j = columnState load numSlots j (numSlots - (base + n) * r))
    : (substBlocks numColumns load base n s).segmentNum = offset ∧
    (∀ j < numColumns, (substBlocks numColumns load base n s).state j =
      columnState load numSlots j (numSlots - base * r)) ∧ (∀ k, offset + n * numColumns ≤ k →
      (substBlocks numColumns load base n s).segments k = s.segments k) ∧
    (∀ c < n, ∀ j < numColumns,
      (substBlocks numColumns load base n s).segments (offset + c * numColumns + j) =
        columnState load numSlots j (numSlots - (base + c) * r)) := by
  induction n generalizing s with
  | zero =>
    refine ⟨?_, hstate, fun _ _ => rfl, fun c hc => absurd hc (Nat.not_lt_zero c)⟩
    rw [substBlocks, hsegment, zero_mul, add_zero]
  | succ n ih =>
    have hslots : (base + n) * r + r = (base + (n + 1)) * r := by ring
    have hnext : s.segmentNum - numColumns = offset + n * numColumns := by
      rw [hsegment, Nat.succ_mul, ← add_assoc, Nat.add_sub_cancel]
    have hblock : ∀ j < numColumns, backSubstBlock numColumns load ((base + n) * r) s.state j =
        columnState load numSlots j (numSlots - (base + n) * r) := by
      intro j hj
      refine backSubstRows_spec (by omega) (fun j hj => ?_) hj
      rw [hstate j hj, hslots]
    rw [substBlocks]
    obtain ⟨hnum, hstate', hafter, hblocks⟩ := ih
      (s := ⟨backSubstBlock numColumns load ((base + n) * r) s.state, storeSegments numColumns
        (s.segmentNum - numColumns) (backSubstBlock numColumns load ((base + n) * r) s.state)
        s.segments, s.segmentNum - numColumns⟩) (by omega) hnext hblock
    simp only at hafter
    refine ⟨hnum, hstate', fun k hk => ?_, fun c hc j hj => ?_⟩
    · have hmul : (n + 1) * numColumns = n * numColumns + numColumns := Nat.succ_mul _ _
      rw [hafter k (by omega), storeSegments_apply, hnext, if_neg (by omega)]
    · rcases Nat.lt_succ_iff_lt_or_eq.1 hc with hlt | rfl
      · exact hblocks c hlt j hj
      · rw [hafter _ (by omega), storeSegments_apply, hnext, if_pos (by omega),
          show offset + c * numColumns + j - (offset + c * numColumns) = j by omega]
        exact hblock j hj

/-- The segments are filled: the blocks before the upper start block have one column less. -/
structure Fills (shape : Shape) (r numStarts : ℕ) : Prop where
  blocks : r ∣ numStarts + r - 1
  upper_le : shape.upperStartBlock ≤ (numStarts + r - 1) / r
  segments : shape.numSegments + shape.upperStartBlock =
    (numStarts + r - 1) / r * shape.upperNumColumns

/-- The number of columns of a block. -/
def Shape.columns (shape : Shape) (block : ℕ) : ℕ :=
  shape.upperNumColumns - if block < shape.upperStartBlock then 1 else 0

/-- The first segment of a block. -/
def Shape.firstSegment (shape : Shape) (block : ℕ) : ℕ :=
  block * shape.upperNumColumns - min block shape.upperStartBlock

open Shape

lemma interleavedBackSubst_spec {shape : Shape} {numStarts : ℕ} (fills : Fills shape r numStarts)
    (segments : ℕ → BitVec r) {block : ℕ} (hblock : block < (numStarts + r - 1) / r)
    (hj : j < shape.columns block) :
    interleavedBackSubst shape numStarts load segments (shape.firstSegment block + j) =
      columnState load (numStarts + r - 1) j (numStarts + r - 1 - block * r) := by
  obtain ⟨b, u, numSegments⟩ := shape
  have hslots : (numStarts + r - 1) / r * r = numStarts + r - 1 := Nat.div_mul_cancel fills.blocks
  have hupper := fills.upper_le
  have hsegments := fills.segments
  simp only [columns] at hj hupper hsegments
  obtain ⟨b, rfl⟩ : ∃ b', b = b' + 1 := ⟨b - 1, by omega⟩
  obtain ⟨m, hm⟩ : ∃ m, (numStarts + r - 1) / r = u + m := ⟨_, (Nat.add_sub_cancel' hupper).symm⟩
  have hnum : numSegments = u * b + m * (b + 1) := by
    rw [hm] at hsegments
    have hring : (u + m) * (b + 1) = u * b + m * (b + 1) + u := by ring
    omega
  have hfull : (u + m) * r = numStarts + r - 1 := by rw [← hm, hslots]
  simp only [interleavedBackSubst, Nat.succ_ne_zero, if_false, hm, Nat.add_sub_cancel_left,
    min_eq_right (Nat.le_add_right u m), Nat.add_sub_cancel]
  have hzero : ∀ j < b + 1, (fun _ => 0 : ℕ → BitVec r) j =
      columnState load (numStarts + r - 1) j (numStarts + r - 1 - (u + m) * r) := by
    intro j _
    rw [hfull, Nat.sub_self]
    rfl
  obtain ⟨hnum₁, hstate₁, -, hblocks₁⟩ :=
    substBlocks_spec (s := ⟨fun _ => 0, segments, numSegments⟩) hfull.le hnum hzero
  generalize substBlocks (b + 1) load u m ⟨fun _ => 0, segments, numSegments⟩ = upper
    at hnum₁ hstate₁ hblocks₁ ⊢
  have hlower : (0 + u) * r ≤ numStarts + r - 1 := by
    rw [zero_add, ← hfull]
    exact Nat.mul_le_mul_right r (Nat.le_add_right u m)
  have hnum₂ : upper.segmentNum = 0 + u * b := by rw [hnum₁, zero_add]
  have hstate₂ : ∀ j < b, upper.state j =
      columnState load (numStarts + r - 1) j (numStarts + r - 1 - (0 + u) * r) := by
    intro j hj
    rw [zero_add]
    exact hstate₁ j (by omega)
  obtain ⟨-, -, hafter₂, hblocks₂⟩ := substBlocks_spec hlower hnum₂ hstate₂
  by_cases hblockLower : block < u
  · rw [if_pos hblockLower] at hj
    have hfirst : firstSegment ⟨b + 1, u, numSegments⟩ block = 0 + block * b := by
      rw [firstSegment, min_eq_left hblockLower.le, Nat.mul_succ, Nat.add_sub_cancel, zero_add]
    have hstored := hblocks₂ block hblockLower j (by omega)
    rw [zero_add] at hstored
    rw [hfirst, zero_add]
    simpa using hstored
  · obtain ⟨c, rfl⟩ : ∃ c, block = u + c := ⟨block - u, by omega⟩
    rw [if_neg hblockLower] at hj
    have hfirst : firstSegment ⟨b + 1, u, numSegments⟩ (u + c) = u * b + c * (b + 1) := by
      rw [firstSegment, min_eq_right (Nat.le_add_right u c)]
      have hring : (u + c) * (b + 1) = u * b + c * (b + 1) + u := by ring
      simp only
      omega
    rw [hfirst, hafter₂ _ (by rw [zero_add, add_assoc]; exact Nat.le_add_right _ _)]
    exact hblocks₁ c (by omega) j hj

end Solution

/-! ## No false negatives -/

section Queries

variable {r w : ℕ} {Input Hash : Type} {bh : Hasher Input Hash r w} {load : ℕ → Row r w}
  {shape : Shape} {numStarts : ℕ}

section

variable (fills : Fills shape r numStarts)

include fills

/-- A segment shows its part of the solution. -/
lemma segment_window (segments : ℕ → BitVec r) {block j : ℕ}
    (hblock : block < (numStarts + r - 1) / r) (hj : j < shape.columns block) {k : ℕ} (hk : k < r) :
    (interleavedBackSubst shape numStarts load segments (shape.firstSegment block + j)).getLsbD k =
      solutionColumn load (numStarts + r - 1) j (block * r + k) := by
  have hle : block * r ≤ numStarts + r - 1 := by
    rw [← Nat.div_mul_cancel fills.blocks]
    exact Nat.mul_le_mul_right r hblock.le
  rw [interleavedBackSubst_spec fills segments hblock hj, columnState_window j (Nat.sub_le _ _) hk,
    Nat.sub_sub_self hle]

omit fills in
/-- The segments of the next block come right after those of a block, and it has at least as many
columns. -/
lemma Shape.firstSegment_succ {block : ℕ} (hcolumns : 0 < shape.columns block) :
    shape.firstSegment block + shape.columns block = shape.firstSegment (block + 1) ∧
      shape.columns block ≤ shape.columns (block + 1) := by
  obtain ⟨b, u, numSegments⟩ := shape
  simp only [columns, firstSegment] at hcolumns ⊢
  obtain ⟨b, rfl⟩ : ∃ b', b = b' + 1 := ⟨b - 1, by omega⟩
  have hsucc : (block + 1) * (b + 1) = block * (b + 1) + (b + 1) := Nat.succ_mul _ _
  have hge : block ≤ block * (b + 1) := Nat.le_mul_of_pos_right block (Nat.succ_pos b)
  by_cases hlower : block < u
  · rw [if_pos hlower]
    by_cases hnext : block + 1 < u
    · rw [if_pos hnext]
      omega
    · rw [if_neg hnext]
      omega
  · rw [if_neg hlower, if_neg (by omega : ¬ block + 1 < u)]
    omega

/-- **A solution that is stored in blocks gives the result of every equation.** -/
lemma interleavedFilterQuery_eq_true
    (filter : FilterHasher bh numStarts) (segments : ℕ → BitVec r) (key : Input)
    (h : Satisfies (solutionColumn load (numStarts + r - 1))
      (bh.getStart (bh.getHash key) numStarts) (bh.getCoeffRow (bh.getHash key))
      (bh.getResultRowFromHash (bh.getHash key))) :
    interleavedFilterQuery bh (interleavedBackSubst shape numStarts load segments)
      (interleavedPrepareQuery bh shape numStarts key) = true := by
  have hstart := filter.start_lt (bh.getHash key)
  have hr : 0 < r := by
    have hlt := (countTrailingZeroBits_spec (filter.coeffRow_ne_zero (bh.getHash key))).1
    omega
  have hslots : (numStarts + r - 1) / r * r = numStarts + r - 1 := Nat.div_mul_cancel fills.blocks
  obtain ⟨start, hs⟩ : ∃ start, bh.getStart (bh.getHash key) numStarts = start := ⟨_, rfl⟩
  rw [hs] at hstart h
  simp only [interleavedFilterQuery, interleavedPrepareQuery, hs]
  have hdivmod : start / r * r + start % r = start := by
    rw [mul_comm]
    exact Nat.div_add_mod start r
  have hblock : start / r < (numStarts + r - 1) / r := by
    rw [Nat.div_lt_iff_lt_mul hr, hslots]
    omega
  have hwindow : ∀ {block j : ℕ}, block < (numStarts + r - 1) / r → j < shape.columns block →
      ∀ k < r, (interleavedBackSubst shape numStarts load segments
        (shape.firstSegment block + j)).getLsbD k =
        solutionColumn load (numStarts + r - 1) j (block * r + k) :=
    fun hblock hj k hk => segment_window fills segments hblock hj hk
  by_cases hbit : start % r = 0
  · rw [if_pos hbit, List.all_eq_true]
    intro j hj
    rw [beq_iff_eq]
    refine bit_injective ?_
    rw [← h j]
    refine (bit_bitParity_window (hwindow hblock (List.mem_range.1 hj)) _).trans ?_
    rw [hbit, add_zero] at hdivmod
    rw [hdivmod]
  · rw [if_neg hbit, List.all_eq_true]
    intro j hj
    have hj' : j < shape.columns (start / r) := List.mem_range.1 hj
    obtain ⟨hnext, hcolumns⟩ := Shape.firstSegment_succ (Nat.zero_lt_of_lt hj')
    have hblock' : start / r + 1 < (numStarts + r - 1) / r := by
      rw [← Nat.mul_lt_mul_right hr, hslots, Nat.succ_mul]
      omega
    have hleft := bit_bitParity_window (hwindow hblock hj')
      (bh.getCoeffRow (bh.getHash key) <<< (start % r))
    have hright := bit_bitParity_window (hwindow hblock' (hj'.trans_le hcolumns))
      (bh.getCoeffRow (bh.getHash key) >>> (r - start % r))
    rw [beq_iff_eq]
    refine bit_injective ?_
    have hnext' : start / r * shape.upperNumColumns - min (start / r) shape.upperStartBlock +
        (shape.upperNumColumns - if start / r < shape.upperStartBlock then 1 else 0) =
        shape.firstSegment (start / r + 1) := hnext
    rw [bit_bitParity_xor, hnext', hright, Nat.succ_mul]
    refine (congrArg (· + _) hleft).trans ?_
    rw [dot_split _ (Nat.mod_lt _ hr).le, hdivmod, h j]

end

end Queries

/-- A hasher with rows of four coefficients and two result bits. -/
def modHasher : Hasher ℕ ℕ 4 2 where
  getHash := id
  getStart := fun h numStarts => h % numStarts
  getCoeffRow := fun _ => 11
  getResultRowFromHash := fun h => BitVec.ofNat 2 h
  getResultRowFromInput := fun _ => 0
  kFirstCoeffAlwaysOne := true

lemma filterHasher_modHasher : FilterHasher modHasher 5 :=
  ⟨⟨fun h => Nat.mod_lt h (by decide), fun _ => show (11 : BitVec 4) ≠ 0 by decide,
    fun _ _ => show (11 : BitVec 4).getLsbD 0 = true by decide⟩, fun _ => rfl⟩

/-- **Banding decides solvability.** Inputs are added to a storage if and only if their equations
and those added before have a solution; where that fails, backtracking restores the storage. -/
theorem bandingAddRange_iff_solvable {r w : ℕ} {Input Hash : Type} {bh : Hasher Input Hash r w}
    {numStarts : ℕ} (hasher : BandingHasher bh numStarts) {added : List Input} {bs : Banding r w}
    (h : Reached bh numStarts added bs) (usePrefetch useBacktrack : Bool) (inputs : List Input) :
    ∃ ok bs', bandingAddRange bh numStarts usePrefetch useBacktrack inputs bs = some (ok, bs') ∧
      (ok = true ↔ ∃ columns, ∀ x ∈ added ++ inputs, Meets bh numStarts columns x) ∧
      (ok = false → useBacktrack = true → bs' = bs) := by
  obtain ⟨hbanded, hbefore⟩ := h.spec hasher
  obtain ⟨ok, bs', hrange, hafter, hsolves, hback⟩ :=
    bandingAddRange_spec hasher usePrefetch useBacktrack inputs hbanded
  refine ⟨ok, bs', hrange, ?_, hback⟩
  simp only [forall_mem_append, ← hbefore, hsolves]
  constructor
  · intro hok
    exact ⟨_, hok, solves_solutionColumn (hafter hok).wellFormed fun _ => 0⟩
  · rintro ⟨_, hok, -⟩
    exact hok

/-- A third input has the row of the first and another result. -/
theorem bandingAddRange_conflict : BandingHasher modHasher 5 ∧ ∃ bs, Reached modHasher 5 [3, 4] bs ∧
    bandingAddRange modHasher 5 true true [8] bs = some (false, bs) ∧
    ¬ ∃ columns, ∀ x ∈ [3, 4] ++ [8], Meets modHasher 5 columns x := by
  have hasher := filterHasher_modHasher.toBandingHasher
  have hadd : bandingAddRange modHasher 5 true true [3, 4] (fun _ => ⟨0, 0⟩) =
      some (true, update (update (fun _ => ⟨0, 0⟩) 3 ⟨11, 3⟩) 4 ⟨11, 0⟩) := rfl
  have reached := Reached.empty.add hadd
  obtain ⟨ok, bs', hrange, hiff, hback⟩ := bandingAddRange_iff_solvable hasher reached true true [8]
  obtain rfl : false = ok := congrArg (fun o => o.elim true Prod.fst) hrange
  rw [hback rfl rfl] at hrange
  exact ⟨hasher, _, reached, hrange, fun h => absurd (hiff.2 h) (by simp)⟩

/-- **No false negatives.** Where all inputs have been added to an empty storage, the queries of
both solutions succeed for every input, whatever is chosen for the rows without coefficients. -/
theorem no_false_negatives {r w : ℕ} {Input Hash : Type} {bh : Hasher Input Hash r w}
    {numStarts : ℕ} (filter : FilterHasher bh numStarts) (usePrefetch useBacktrack : Bool)
    (inputs : List Input) {bs : Banding r w}
    (h : bandingAddRange bh numStarts usePrefetch useBacktrack inputs (fun _ => ⟨0, 0⟩) =
      some (true, bs)) (custom : ℕ → BitVec w) {key : Input} (hkey : key ∈ inputs) :
    (∀ solution, simpleFilterQuery bh numStarts
      (simpleBackSubst numStarts (loadRow bs custom) solution) key = true) ∧
    ∀ shape, Fills shape r numStarts → ∀ segments, interleavedFilterQuery bh
        (interleavedBackSubst shape numStarts (loadRow bs custom) segments)
        (interleavedPrepareQuery bh shape numStarts key) = true := by
  obtain ⟨hbanded, hsolves⟩ := (Reached.empty.add h).spec filter.toBandingHasher
  have hkey := (hsolves _).1 (solves_solutionColumn hbanded.wellFormed custom) key hkey
  rw [Meets, filter.input_zero, show ∀ rr : BitVec w, 0 ||| rr = rr from fun _ => BitVec.zero_or]
    at hkey
  refine ⟨fun solution => ?_, fun shape fills segments => ?_⟩
  · simp only [simpleFilterQuery]
    rw [simpleQueryHelper_eq (filter.start_lt (bh.getHash key)) hkey]
    exact decide_eq_true rfl
  · exact interleavedFilterQuery_eq_true fills filter segments key hkey

/-- Three inputs, of which the last is redundant, fill two slots of eight. -/
theorem no_false_negatives_modHasher : FilterHasher modHasher 5 ∧
    ∃ bs, bandingAddRange modHasher 5 true false [3, 4, 23] (fun _ => ⟨0, 0⟩) = some (true, bs) ∧
      Fills ⟨2, 1, 3⟩ 4 5 ∧ interleavedFilterQuery modHasher
        (interleavedBackSubst ⟨2, 1, 3⟩ 5 (loadRow bs fun _ => 1) fun _ => 0)
        (interleavedPrepareQuery modHasher ⟨2, 1, 3⟩ 5 23) = true := by
  have filter := filterHasher_modHasher
  have fills : Fills ⟨2, 1, 3⟩ 4 5 := ⟨by decide, by decide, by decide⟩
  have hadd : bandingAddRange modHasher 5 true false [3, 4, 23] (fun _ => ⟨0, 0⟩) =
      some (true, update (update (fun _ => ⟨0, 0⟩) 3 ⟨11, 3⟩) 4 ⟨11, 0⟩) := rfl
  exact ⟨filter, _, hadd, fills,
    (no_false_negatives filter true false [3, 4, 23] hadd (fun _ => 1) (by simp)).2 _ fills _⟩

end BucketLSM.Filter
