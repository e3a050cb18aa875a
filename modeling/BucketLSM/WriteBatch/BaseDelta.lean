import BucketLSM.WriteBatch.Index

/-!
# Transaction iterators

`BaseDeltaIterator` shows what a base iterator would show if an indexed write batch were applied to
the base. It keeps a cursor on each of them, on one side of the current key or on the key itself,
and changes sides with the direction. Deleted keys are skipped, and merges are evaluated when they
are read.
-/

namespace BucketLSM.WriteBatchWithIndex

open Cursor

/-! ## Values and columns -/

def hasDefaultColumn : WideColumns → Bool
  | [] => false
  | c :: _ => c.name = kDefaultWideColumnName

def hasDefaultColumnOnly (columns : WideColumns) : Bool :=
  columns.length = 1 && hasDefaultColumn columns

def getDefaultColumn : WideColumns → Slice
  | [] => []
  | c :: _ => c.value

/-- What an iterator shows of a key (`value`, `columns`). -/
structure Shown where
  value : Slice
  columns : WideColumns
deriving DecidableEq, Repr

namespace Shown

def ofPlain (value : Slice) : Shown := ⟨value, [⟨kDefaultWideColumnName, value⟩]⟩

def ofColumns (columns : WideColumns) : Shown :=
  ⟨if hasDefaultColumn columns then getDefaultColumn columns else [], columns⟩

end Shown

/-- What a merge operator returns, with `result_type`. -/
inductive MergeResult where
  | value (value : Slice)
  | wideColumnEntity (columns : WideColumns)
deriving DecidableEq, Repr

def MergeResult.shown : MergeResult → Shown
  | value v => .ofPlain v
  | wideColumnEntity columns => .ofColumns columns

/-- A merge operator that always succeeds. It takes the key, the value to merge with, and the
operands with the oldest first. -/
abbrev MergeOperator (K : Type) := K → BaseValue → List Slice → MergeResult

section Model

variable {K : Type} [LinearOrder K]

/-- The map that the base iterator is over. Each key has the columns that the base iterator shows,
which for a plain value is the default column. -/
structure BaseMap (K : Type) [LinearOrder K] where
  entries : List (K × WideColumns)
  sorted : (entries.map Prod.fst).Pairwise (· < ·)

namespace BaseMap

def keys (base : BaseMap K) : List K := base.entries.map Prod.fst

/-- `columns()` of the base iterator on a key. -/
def columns (base : BaseMap K) (k : K) : WideColumns :=
  ((base.entries.find? fun e => decide (e.1 = k)).map Prod.snd).getD []

/-- The cursor of the base iterator: the first key in a direction that is wanted. -/
def scan (base : BaseMap K) (forward : Bool) (wanted : K → Bool) : Option K :=
  Cursor.scan forward wanted base.keys

/-- `Next` and `Prev`. -/
def move (base : BaseMap K) (forward : Bool) (k : K) : Option K :=
  base.scan forward fun x => decide (Ahead forward k x)

/-- `Seek` and `SeekForPrev`. -/
def seekKey (base : BaseMap K) (forward : Bool) (target : K) : Option K :=
  base.scan forward fun x => decide (¬ Ahead forward x target)

/-- `SeekToFirst` and `SeekToLast`. -/
def seekToEnd (base : BaseMap K) (forward : Bool) : Option K :=
  base.scan forward fun _ => true

end BaseMap

/-- What an iterator is made from. -/
structure Setup (K : Type) [LinearOrder K] where
  base : BaseMap K
  batch : List (Entry K)
  overwriteKey : Bool
  mergeOperator : MergeOperator K
  allowUnpreparedValue : Bool

/-- The index of the batch. -/
def Setup.index (env : Setup K) : List (Entry K) := indexOf env.overwriteKey env.batch

inductive Status where
  | ok
  | notSupported (message : String)
deriving DecidableEq, Repr

/-- The fields of a `BaseDeltaIterator`. -/
structure BaseDeltaIterator (K : Type) where
  forward : Bool := true
  currentAtBase : Bool := true
  equalKeys : Bool := false
  status : Status := .ok
  base : Option K := none
  delta : Option (Position K) := none
  mergeContext : List Slice := []
  value : Slice := []
  columns : WideColumns := []

namespace BaseDeltaIterator

def deltaKey (s : BaseDeltaIterator K) : Option K := s.delta.map Position.key

def valid (s : BaseDeltaIterator K) : Bool :=
  s.status = .ok && (if s.currentAtBase then s.base.isSome else s.delta.isSome)

def key (s : BaseDeltaIterator K) : Option K := if s.currentAtBase then s.base else s.deltaKey

variable (env : Setup K)

def advanceBase (s : BaseDeltaIterator K) : BaseDeltaIterator K :=
  { s with base := s.base.bind (env.base.move s.forward) }

def advanceDelta (s : BaseDeltaIterator K) : BaseDeltaIterator K :=
  { s with delta := s.delta.bind (moveKey s.forward env.index) }

def setShown (s : BaseDeltaIterator K) (shown : Shown) : BaseDeltaIterator K :=
  { s with value := shown.value, columns := shown.columns }

def setValueAndColumnsFromBase (s : BaseDeltaIterator K) : BaseDeltaIterator K :=
  match s.base with
  | some k => s.setShown (.ofColumns (env.base.columns k))
  | none => s

/-- What merge operands of the base iterator's key are applied to. -/
def baseValueOf (columns : WideColumns) : BaseValue :=
  if hasDefaultColumnOnly columns then .plainBaseValue (getDefaultColumn columns)
  else .wideBaseValue columns

/-- `MergeKeyWithNoBaseValue` and `MergeKeyWithBaseValue`. -/
def mergeKey (k : K) (existing : BaseValue) (context : List Slice) : Shown :=
  (env.mergeOperator k existing context).shown

def setValueAndColumnsFromDelta (s : BaseDeltaIterator K) : BaseDeltaIterator K :=
  match s.delta with
  | none => s
  | some p =>
    if s.mergeContext = [] then
      match p.entry.2 with
      | .put value => s.setShown (.ofPlain value)
      | .putEntity columns => s.setShown (.ofColumns columns)
      | _ => s
    else
      match p.entry.2 with
      | .delete => s.setShown (mergeKey env p.key .noBaseValue s.mergeContext)
      | .singleDelete => s.setShown (mergeKey env p.key .noBaseValue s.mergeContext)
      | .put value => s.setShown (mergeKey env p.key (.plainBaseValue value) s.mergeContext)
      | .putEntity columns =>
        s.setShown (mergeKey env p.key (.wideBaseValue columns) s.mergeContext)
      | .merge _ =>
        match s.equalKeys, s.base with
        | true, some b =>
          s.setShown (mergeKey env p.key (baseValueOf (env.base.columns b)) s.mergeContext)
        | _, _ => s.setShown (mergeKey env p.key .noBaseValue s.mergeContext)

/-- The current key is that of the base. -/
def settleAtBase (s : BaseDeltaIterator K) : BaseDeltaIterator K :=
  let s := { s with currentAtBase := true }
  if env.allowUnpreparedValue then s else s.setValueAndColumnsFromBase env

/-- The current key is that of the delta. -/
def settleAtDelta (s : BaseDeltaIterator K) : BaseDeltaIterator K :=
  setValueAndColumnsFromDelta env { s with currentAtBase := false }

/-- The delta's key is deleted, and nothing was merged into it since. -/
def hidden (result : Result) (s : BaseDeltaIterator K) : Bool :=
  result = .deleted && s.mergeContext = []

/-- Moves on from a hidden key, with the base if it is on that key too. -/
def skipHidden (s : BaseDeltaIterator K) : BaseDeltaIterator K :=
  if s.equalKeys then (s.advanceDelta env).advanceBase env else s.advanceDelta env

/-- The part of a turn of `UpdateCurrent` that finds out about the delta's key. -/
def lookAtDelta (s : BaseDeltaIterator K) : Result × BaseDeltaIterator K :=
  match s.delta with
  | none => (.notFound, { s with equalKeys := false })
  | some p =>
    let l := findLatestUpdate env.index p
    (l.result, { s with delta := l.position, mergeContext := l.mergeContext, equalKeys := false })

/-- The rest of a turn: the loop stops at the key that comes first, or goes on with `again` after a
hidden key. -/
def settle (again : BaseDeltaIterator K → Option (BaseDeltaIterator K)) (result : Result)
    (s : BaseDeltaIterator K) : Option (BaseDeltaIterator K) :=
  match s.base, s.deltaKey with
  | none, none => some s
  | none, some _ =>
    if hidden result s then again (s.advanceDelta env) else some (s.settleAtDelta env)
  | some _, none => some (s.settleAtBase env)
  | some b, some d =>
    if Ahead s.forward b d then some (s.settleAtBase env)
    else
      let s := { s with equalKeys := decide (d = b) }
      if !hidden result s then some (s.settleAtDelta env) else again (s.skipHidden env)

/-- The loop of `UpdateCurrent`. -/
def updateCurrentLoop : ℕ → BaseDeltaIterator K → Option (BaseDeltaIterator K)
  | 0, _ => none
  | fuel + 1, s => settle env (updateCurrentLoop fuel) (lookAtDelta env s).1 (lookAtDelta env s).2

/-- A turn of the loop that is not the last one moves the delta on, so there is at most one turn for
each entry of the index and one more. -/
def updateCurrent (s : BaseDeltaIterator K) : Option (BaseDeltaIterator K) :=
  updateCurrentLoop env (env.index.length + 1) { s with status := .ok, value := [], columns := [] }

def advance (s : BaseDeltaIterator K) : Option (BaseDeltaIterator K) :=
  updateCurrent env (if s.equalKeys then (s.advanceBase env).advanceDelta env
    else if s.currentAtBase then s.advanceBase env
    else s.advanceDelta env)

/-- Brings the cursor that is not current to the other side of the current key. -/
def turn (forward : Bool) (s : BaseDeltaIterator K) : BaseDeltaIterator K :=
  if s.base = none then { s with base := env.base.seekToEnd forward }
  else if s.deltaKey = none then { s with delta := seekToEnd forward env.index }
  else if s.currentAtBase then s.advanceDelta env
  else s.advanceBase env

def changeDirection (forward : Bool) (s : BaseDeltaIterator K) : BaseDeltaIterator K :=
  let s := turn env forward { s with forward := forward, equalKeys := false }
  { s with equalKeys := decide (s.base ≠ none ∧ s.deltaKey = s.base) }

/-- `Next` and `Prev`. -/
def move (forward : Bool) (message : String) (s : BaseDeltaIterator K) :
    Option (BaseDeltaIterator K) :=
  if !s.valid then some { s with status := .notSupported message }
  else advance env (if s.forward = forward then s else changeDirection env forward s)

def next : BaseDeltaIterator K → Option (BaseDeltaIterator K) :=
  move env true "Next() on invalid iterator"

def prev : BaseDeltaIterator K → Option (BaseDeltaIterator K) :=
  move env false "Prev() on invalid iterator"

/-- `SeekToFirst` and `SeekToLast`. -/
def toEnd (forward : Bool) (s : BaseDeltaIterator K) : Option (BaseDeltaIterator K) :=
  updateCurrent env { s with
    forward := forward
    base := env.base.seekToEnd forward
    delta := seekToEnd forward env.index }

/-- `Seek` and `SeekForPrev`. -/
def toKey (forward : Bool) (target : K) (s : BaseDeltaIterator K) : Option (BaseDeltaIterator K) :=
  updateCurrent env { s with
    forward := forward
    base := env.base.seekKey forward target
    delta := seekKey forward env.index target }

def prepareValue (s : BaseDeltaIterator K) : BaseDeltaIterator K :=
  if !env.allowUnpreparedValue then s
  else if !s.currentAtBase then s
  else s.setValueAndColumnsFromBase env

end BaseDeltaIterator

/-- The calls of a reader. -/
inductive ReadOp (K : Type) where
  | seekToFirst
  | seekToLast
  | seek (target : K)
  | seekForPrev (target : K)
  | next
  | prev
  | prepareValue

namespace BaseDeltaIterator

def step (env : Setup K) (s : BaseDeltaIterator K) : ReadOp K → Option (BaseDeltaIterator K)
  | .seekToFirst => s.toEnd env true
  | .seekToLast => s.toEnd env false
  | .seek target => s.toKey env true target
  | .seekForPrev target => s.toKey env false target
  | .next => s.next env
  | .prev => s.prev env
  | .prepareValue => some (s.prepareValue env)

def run (env : Setup K) (ops : List (ReadOp K)) : Option (BaseDeltaIterator K) :=
  ops.foldlM (step env) {}

/-- What a reader sees: the key with its value and columns, once the value is prepared. -/
def observe (env : Setup K) (s : BaseDeltaIterator K) : Option (K × Shown) :=
  if s.valid then
    s.key.map fun k => (k, ⟨(s.prepareValue env).value, (s.prepareValue env).columns⟩)
  else none

end BaseDeltaIterator

end Model

end BucketLSM.WriteBatchWithIndex
