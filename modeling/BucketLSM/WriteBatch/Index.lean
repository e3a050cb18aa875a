import BucketLSM.Lib.Direction

/-!
# Indexed write batches

`utilities/write_batch_with_index/`: a write batch with an index of its updates, ordered by key and
within a key from the newest update to the oldest. In overwrite mode an update that is not a merge
takes the place of the newest one of its key. `WBWIIteratorImpl` walks over the index, and finds the
update of a key that decides its value together with the merge operands after it.
-/

namespace BucketLSM.WriteBatchWithIndex

open Option List

abbrev Slice := List UInt8

structure WideColumn where
  name : Slice
  value : Slice
deriving DecidableEq, Repr

abbrev WideColumns := List WideColumn

def kDefaultWideColumnName : Slice := []

/-- A record of the batch (`WriteType` with the data of the record). The columns of an entity are
those that its value decodes to. -/
inductive Update where
  | put (value : Slice)
  | putEntity (columns : WideColumns)
  | delete
  | singleDelete
  | merge (operand : Slice)
deriving DecidableEq, Repr

namespace Update

/-- `type == kMergeRecord`. -/
def isMerge : Update → Bool
  | merge _ => true
  | _ => false

end Update

section Index

variable {K : Type}

/-- An entry of the index with the record it points to. -/
abbrev Entry (K : Type) := K × Update

/-- A valid position of the iterator: the entry it stands on, the entries before it, nearest
first, and those after it. -/
structure Position (K : Type) where
  before : List (Entry K)
  entry : Entry K
  after : List (Entry K)
deriving DecidableEq

namespace Position

def key (p : Position K) : K := p.entry.1

/-- The same position seen from the other end. -/
def flip (p : Position K) : Position K := ⟨p.after, p.entry, p.before⟩

/-- `p` is a position in `index`. -/
def On (index : List (Entry K)) (p : Position K) : Prop :=
  p.before.reverse ++ p.entry :: p.after = index

end Position

/-- Moves on to the first entry whose key is wanted. -/
def scanForward (wanted : K → Bool) : List (Entry K) → List (Entry K) → Option (Position K)
  | _, [] => none
  | before, e :: after =>
    if wanted e.1 then some ⟨before, e, after⟩ else scanForward wanted (e :: before) after

/-- Moves back to the first entry whose key is wanted. -/
def scanBackward (wanted : K → Bool) (before after : List (Entry K)) : Option (Position K) :=
  (scanForward wanted after before).map Position.flip

/-! ## The iterator -/

def seekToFirst (index : List (Entry K)) : Option (Position K) :=
  scanForward (fun _ => true) [] index

def seekToLast (index : List (Entry K)) : Option (Position K) :=
  scanBackward (fun _ => true) index.reverse []

def next (p : Position K) : Option (Position K) :=
  scanForward (fun _ => true) (p.entry :: p.before) p.after

def prev (p : Position K) : Option (Position K) :=
  scanBackward (fun _ => true) p.before (p.entry :: p.after)

variable [LinearOrder K]

def seek (index : List (Entry K)) (target : K) : Option (Position K) :=
  scanForward (fun k => decide (target ≤ k)) [] index

def seekForPrev (index : List (Entry K)) (target : K) : Option (Position K) :=
  scanBackward (fun k => decide (k ≤ target)) index.reverse []

/-- Moves until the iterator is at a different key. -/
def advanceKey (forward : Bool) (p : Position K) : Option (Position K) :=
  if forward then scanForward (fun k => decide (k ≠ p.key)) (p.entry :: p.before) p.after
  else scanBackward (fun k => decide (k ≠ p.key)) p.before (p.entry :: p.after)

def nextKey (p : Position K) : Option (Position K) := advanceKey true p

/-- Moves to the first entry of the current key, from any entry of it. -/
def toFirstOfKey (index : List (Entry K)) (p : Position K) : Option (Position K) :=
  match advanceKey false p with
  | some q => next q
  | none => seekToFirst index

def prevKey (index : List (Entry K)) (p : Position K) : Option (Position K) :=
  match advanceKey false p with
  | some q => toFirstOfKey index q
  | none => none

inductive Result where
  | found
  | deleted
  | notFound
  | mergeInProgress
deriving DecidableEq, Repr

/-- What `FindLatestUpdate` returns, the merge context it fills, with the oldest operand first, and
where it leaves the iterator. -/
structure Latest (K : Type) where
  result : Result
  mergeContext : List Slice
  position : Option (Position K)

/-- The loop of `FindLatestUpdate` over the entries of `key`. -/
def findLatestUpdateLoop (index : List (Entry K)) (key : K) :
    Result → List Slice → List (Entry K) → List (Entry K) → Latest K
  | result, context, _, [] => ⟨result, context, seekToLast index⟩
  | result, context, before, e :: after =>
    if e.1 ≠ key then ⟨result, context, prev ⟨before, e, after⟩⟩
    else
      match e.2 with
      | .put _ => ⟨.found, context, some ⟨before, e, after⟩⟩
      | .delete => ⟨.deleted, context, some ⟨before, e, after⟩⟩
      | .singleDelete => ⟨.deleted, context, some ⟨before, e, after⟩⟩
      | .merge operand =>
        findLatestUpdateLoop index key .mergeInProgress (operand :: context) (e :: before) after
      | .putEntity _ => ⟨.found, context, some ⟨before, e, after⟩⟩

def findLatestUpdate (index : List (Entry K)) (p : Position K) : Latest K :=
  match toFirstOfKey index p with
  | some q => findLatestUpdateLoop index p.key .notFound [] q.before (q.entry :: q.after)
  -- The iterator would be past the end, where the loop does nothing.
  | none => ⟨.notFound, [], seekToLast index⟩

/-! ## Building the index -/

/-- The skip list's insertion of an entry that is newer than those of its key. -/
def insert (e : Entry K) : List (Entry K) → List (Entry K)
  | [] => [e]
  | x :: rest => if x.1 < e.1 then x :: insert e rest else e :: x :: rest

/-- In overwrite mode, the newest entry of the key is made to point to the new record, unless that
is a merge. -/
def updateExistingEntry (overwriteKey : Bool) (index : List (Entry K)) (e : Entry K) :
    Option (List (Entry K)) :=
  if !overwriteKey then none
  else
    match seek index e.1 with
    | none => none
    | some p =>
      if p.key ≠ e.1 then none
      else if e.2.isMerge then none
      else some (p.before.reverse ++ e :: p.after)

def addOrUpdateIndex (overwriteKey : Bool) (index : List (Entry K)) (e : Entry K) :
    List (Entry K) :=
  (updateExistingEntry overwriteKey index e).getD (insert e index)

/-- The index of a batch, which is the list of its records. -/
def indexOf (overwriteKey : Bool) (batch : List (Entry K)) : List (Entry K) :=
  batch.foldl (addOrUpdateIndex overwriteKey) []

end Index

/-! ## Scanning -/

section Scan

variable {K : Type} {wanted : K → Bool} {before after index : List (Entry K)} {p : Position K}

lemma scanForward_some (h : scanForward wanted before after = some p) :
    ∃ skipped, after = skipped ++ p.entry :: p.after ∧ p.before = skipped.reverse ++ before ∧
      (∀ e ∈ skipped, wanted e.1 = false) ∧ wanted p.key = true := by
  fun_induction scanForward wanted before after with
  | case1 => cases h
  | case2 before e after hw =>
    obtain rfl := some.inj h
    exact ⟨[], rfl, rfl, by simp, hw⟩
  | case3 before e after hw ih =>
    obtain ⟨skipped, rfl, hbefore, hskip, hkey⟩ := ih h
    exact ⟨e :: skipped, rfl, by simp [hbefore], by simpa [hw] using hskip, hkey⟩

lemma scanForward_none (h : scanForward wanted before after = none) :
    ∀ e ∈ after, wanted e.1 = false := by
  fun_induction scanForward wanted before after with
  | case1 => simp
  | case2 => cases h
  | case3 before e after hw ih => simpa [hw] using ih h

lemma scanForward_on (hlist : before.reverse ++ after = index)
    (h : scanForward wanted before after = some p) : p.On index := by
  obtain ⟨skipped, rfl, hbefore, -, -⟩ := scanForward_some h
  rw [Position.On, hbefore, ← hlist]
  simp

lemma scanBackward_some (h : scanBackward wanted before after = some p) :
    ∃ skipped, before = skipped ++ p.entry :: p.before ∧ p.after = skipped.reverse ++ after ∧
      (∀ e ∈ skipped, wanted e.1 = false) ∧ wanted p.key = true := by
  obtain ⟨q, hq, rfl⟩ := map_eq_some_iff.1 h
  exact scanForward_some hq

lemma scanBackward_none (h : scanBackward wanted before after = none) :
    ∀ e ∈ before, wanted e.1 = false :=
  scanForward_none (map_eq_none_iff.1 h)

lemma scanBackward_on (hlist : before.reverse ++ after = index)
    (h : scanBackward wanted before after = some p) : p.On index := by
  obtain ⟨skipped, rfl, hafter, -, -⟩ := scanBackward_some h
  rw [Position.On, hafter, ← hlist]
  simp

end Scan

/-! ## The keys that the iterator visits -/

section Keys

open Cursor

variable {K : Type} {wanted : K → Bool} {before after index : List (Entry K)} {p q : Position K}
  {k : K}

/-- The keys of the index, with repetitions. -/
def keys (index : List (Entry K)) : List K := index.map Prod.fst

lemma mem_keys : k ∈ keys index ↔ ∃ e ∈ index, e.1 = k := mem_map

lemma keys_append : keys (before ++ after) = keys before ++ keys after := map_append

lemma keys_reverse : keys index.reverse = (keys index).reverse := map_reverse

variable [LinearOrder K]

/-- The index is ordered by key. -/
def Sorted (index : List (Entry K)) : Prop := (keys index).Pairwise (· ≤ ·)

/-- A scan over keys in ascending order finds the least key that is wanted. -/
lemma scanForward_isFirst (hs : (keys after).Pairwise (· ≤ ·)) :
    IsFirst {k | k ∈ keys after ∧ wanted k}
      ((scanForward wanted before after).map Position.key) := by
  cases h : scanForward wanted before after with
  | none =>
    refine Set.eq_empty_of_forall_notMem fun k hk => ?_
    obtain ⟨e, he, rfl⟩ := mem_keys.1 hk.1
    exact absurd hk.2 (by simp [scanForward_none h e he])
  | some p =>
    obtain ⟨skipped, rfl, -, hskip, hkey⟩ := scanForward_some h
    refine ⟨⟨mem_keys.2 ⟨p.entry, by simp, rfl⟩, hkey⟩, fun k hk => ?_⟩
    obtain ⟨e, he, rfl⟩ := mem_keys.1 hk.1
    rcases mem_append.1 he with he | he
    · exact absurd hk.2 (by simp [hskip e he])
    rcases mem_cons.1 he with rfl | he
    · exact le_rfl
    · rw [keys_append] at hs
      exact (pairwise_cons.1 (pairwise_append.1 hs).2.1).1 _ (mem_keys.2 ⟨e, he, rfl⟩)

lemma scanBackward_isLast (hs : (keys before).Pairwise (· ≥ ·)) :
    IsLast {k | k ∈ keys before ∧ wanted k}
      ((scanBackward wanted before after).map Position.key) := by
  have h := @scanForward_isFirst Kᵒᵈ wanted after before _ hs
  rw [scanBackward, Option.map_map]
  exact h

variable (hs : Sorted index) (hp : p.On index)

include hs hp in
/-- Around a position, keys are ordered. -/
lemma Position.On.order : (∀ x ∈ keys p.before, x ≤ p.key) ∧ (∀ x ∈ keys p.after, p.key ≤ x) ∧
      (keys p.before).Pairwise (· ≥ ·) ∧ (keys p.after).Pairwise (· ≤ ·) := by
  rw [On] at hp
  rw [Sorted, ← hp, keys_append, keys_reverse] at hs
  obtain ⟨hbefore, hcons, hcross⟩ := pairwise_append.1 hs
  obtain ⟨hafter, hpair⟩ := pairwise_cons.1 hcons
  refine ⟨fun x hx => ?_, hafter, pairwise_reverse.1 hbefore, hpair⟩
  exact hcross x (mem_reverse.2 hx) p.key (by simp [keys, key])

omit [LinearOrder K] in
include hp in
lemma Position.On.mem_keys_iff :
    k ∈ keys index ↔ k ∈ keys p.before ∨ k = p.key ∨ k ∈ keys p.after := by
  rw [On] at hp
  rw [← hp, keys_append, keys_reverse]
  simp [keys, key]

include hp in
lemma advanceKey_on {forward : Bool} (h : advanceKey forward p = some q) : q.On index := by
  have hp' := hp
  rw [Position.On] at hp'
  cases forward with
  | false => exact scanBackward_on hp' h
  | true => exact scanForward_on (by simpa using hp') h

include hs hp in
/-- `AdvanceKey` goes to the next key of the index in its direction. -/
lemma advanceKey_isNext (forward : Bool) :
    IsNext forward {k | k ∈ keys index ∧ Ahead forward p.key k}
      ((advanceKey forward p).map Position.key) := by
  obtain ⟨hle, hge, hbefore, hafter⟩ := hp.order hs
  cases forward with
  | false =>
    have hset : {k | k ∈ keys index ∧ Ahead false p.key k} =
        {k | k ∈ keys p.before ∧ decide (k ≠ p.key) = true} := by
      ext k
      simp only [Set.mem_ofPred_eq, hp.mem_keys_iff, decide_eq_true_eq]
      refine ⟨fun ⟨hk, hlt⟩ => ⟨?_, ne_of_lt hlt⟩,
        fun ⟨hk, hne⟩ => ⟨.inl hk, lt_of_le_of_ne (hle k hk) hne⟩⟩
      rcases hk with hk | rfl | hk
      · exact hk
      · exact absurd hlt (lt_irrefl _)
      · exact absurd hlt (not_lt.2 (hge k hk))
    rw [hset]
    exact scanBackward_isLast hbefore
  | true =>
    have hset : {k | k ∈ keys index ∧ Ahead true p.key k} =
        {k | k ∈ keys p.after ∧ decide (k ≠ p.key) = true} := by
      ext k
      simp only [Set.mem_ofPred_eq, hp.mem_keys_iff, decide_eq_true_eq]
      refine ⟨fun ⟨hk, hlt⟩ => ⟨?_, ne_of_gt hlt⟩,
        fun ⟨hk, hne⟩ => ⟨.inr (.inr hk), lt_of_le_of_ne (hge k hk) (Ne.symm hne)⟩⟩
      rcases hk with hk | rfl | hk
      · exact absurd hlt (not_lt.2 (hle k hk))
      · exact absurd hlt (lt_irrefl _)
      · exact hk
    rw [hset]
    exact scanForward_isFirst hafter

omit [LinearOrder K] in
lemma next_on (hp : p.On index) (h : next p = some q) : q.On index := by
  rw [Position.On] at hp
  exact scanForward_on (by simpa using hp) h

include hs hp in
/-- From any entry of a key, the iterator gets to the first one of that key. -/
lemma toFirstOfKey_spec : ∃ q, toFirstOfKey index p = some q ∧ q.On index ∧ q.key = p.key ∧
    ∀ x ∈ keys q.before, x < p.key := by
  obtain ⟨hle, -, -, -⟩ := hp.order hs
  have hlist := hp
  rw [Position.On] at hlist
  rw [toFirstOfKey]
  cases h : advanceKey false p with
  | none =>
    have hall := scanBackward_none h
    have hkeys : ∀ e ∈ p.before.reverse, e.1 = p.key := by
      intro e he
      simpa using hall e (mem_reverse.1 he)
    cases hbefore : p.before.reverse with
    | nil =>
      rw [hbefore] at hlist
      refine ⟨⟨[], p.entry, p.after⟩, ?_, hlist, rfl, by simp [keys]⟩
      rw [← hlist]
      rfl
    | cons e rest =>
      rw [hbefore] at hlist
      refine ⟨⟨[], e, rest ++ p.entry :: p.after⟩, ?_, hlist, ?_, by simp [keys]⟩
      · rw [← hlist]
        rfl
      · exact hkeys e (by simp [hbefore])
  | some r =>
    obtain ⟨skipped, hbefore, hafter, hskip, hkey⟩ := scanBackward_some h
    have hron := advanceKey_on hp h
    have hrlt : r.key < p.key := by
      refine lt_of_le_of_ne (hle _ ?_) (by simpa using hkey)
      exact mem_keys.2 ⟨r.entry, by simp [hbefore], rfl⟩
    obtain ⟨hrle, -, -, -⟩ := hron.order hs
    have hbelow : ∀ x ∈ keys (r.entry :: r.before), x < p.key := by
      intro x hx
      rcases mem_cons.1 hx with rfl | hx
      · exact hrlt
      · exact (hrle x hx).trans_lt hrlt
    cases hrest : skipped.reverse with
    | nil =>
      rw [hrest] at hafter
      have hnext : next r = some ⟨r.entry :: r.before, p.entry, p.after⟩ := by
        rw [next, hafter]
        rfl
      exact ⟨_, hnext, next_on hron hnext, rfl, hbelow⟩
    | cons e rest =>
      rw [hrest] at hafter
      have hnext : next r = some ⟨r.entry :: r.before, e, rest ++ p.entry :: p.after⟩ := by
        rw [next, hafter]
        rfl
      refine ⟨_, hnext, next_on hron hnext, ?_, hbelow⟩
      have hek : e.1 = p.key := by
        simpa using hskip e (mem_reverse.1 (by simp [hrest]))
      exact hek

/-- `NextKey` and `PrevKey`. -/
def moveKey (forward : Bool) (index : List (Entry K)) (p : Position K) : Option (Position K) :=
  if forward then nextKey p else prevKey index p

include hs hp in
lemma moveKey_on {forward : Bool} (h : moveKey forward index p = some q) : q.On index := by
  cases forward with
  | true =>
    have h' : advanceKey true p = some q := h
    exact advanceKey_on hp h'
  | false =>
    have h' : prevKey index p = some q := h
    rw [prevKey] at h'
    cases hr : advanceKey false p with
    | none =>
      rw [hr] at h'
      exact absurd h' (by simp)
    | some r =>
      rw [hr] at h'
      obtain ⟨q', hq', hon, -, -⟩ := toFirstOfKey_spec hs (advanceKey_on hp hr)
      obtain rfl := some.inj (hq'.symm.trans h')
      exact hon

include hs hp in
/-- `NextKey` and `PrevKey` go to the next key of the index in their direction. -/
lemma moveKey_isNext (forward : Bool) : IsNext forward {k | k ∈ keys index ∧ Ahead forward p.key k}
      ((moveKey forward index p).map Position.key) := by
  have hadv := advanceKey_isNext hs hp forward
  cases forward with
  | true => exact hadv
  | false =>
    suffices h : (prevKey index p).map Position.key = (advanceKey false p).map Position.key by
      rw [moveKey, if_neg Bool.false_ne_true, h]
      exact hadv
    rw [prevKey]
    cases hr : advanceKey false p with
    | none => rfl
    | some r =>
      obtain ⟨q, hq, -, hkey, -⟩ := toFirstOfKey_spec hs (advanceKey_on hp hr)
      simp [hq, hkey]

/-- `Seek` and `SeekForPrev`. -/
def seekKey (forward : Bool) (index : List (Entry K)) (target : K) : Option (Position K) :=
  if forward then seek index target else seekForPrev index target

/-- `SeekToFirst` and `SeekToLast`. -/
def seekToEnd (forward : Bool) (index : List (Entry K)) : Option (Position K) :=
  if forward then seekToFirst index else seekToLast index

/-- A scan over the whole index from the end where the direction starts. -/
def scanIndex (forward : Bool) (wanted : K → Bool) (index : List (Entry K)) : Option (Position K) :=
  if forward then scanForward wanted [] index else scanBackward wanted index.reverse []

omit [LinearOrder K] in
lemma scanIndex_on {forward : Bool} (h : scanIndex forward wanted index = some q) : q.On index := by
  cases forward with
  | false =>
    have hlist : index.reverse.reverse ++ [] = index := by simp
    exact scanBackward_on hlist h
  | true =>
    have hlist : ([] : List (Entry K)).reverse ++ index = index := by simp
    exact scanForward_on hlist h

include hs in
lemma scanIndex_isNext (forward : Bool) (wanted : K → Bool) :
    IsNext forward {k | k ∈ keys index ∧ wanted k}
      ((scanIndex forward wanted index).map Position.key) := by
  cases forward with
  | false =>
    have hpair : (keys index.reverse).Pairwise (· ≥ ·) := by
      rw [keys_reverse]
      exact pairwise_reverse.2 hs
    have h := @scanBackward_isLast K wanted index.reverse [] _ hpair
    simp only [keys_reverse, mem_reverse] at h
    exact h
  | true => exact scanForward_isFirst hs

omit [LinearOrder K] in
lemma seekToEnd_eq (forward : Bool) :
    seekToEnd forward index = scanIndex forward (fun _ => true) index := by
  cases forward <;> rfl

lemma seekKey_eq (forward : Bool) :
    seekKey forward index k = scanIndex forward (fun x => decide (¬ Ahead forward x k)) index := by
  cases forward with
  | false =>
    simp only [seekKey, scanIndex, seekForPrev, Ahead, not_lt, Bool.false_eq_true, if_false]
  | true => simp only [seekKey, scanIndex, seek, Ahead, not_lt, if_true]

end Keys

/-! ## What updates do to a key -/

/-- The value that merge operands are applied to. -/
inductive BaseValue where
  | noBaseValue
  | plainBaseValue (value : Slice)
  | wideBaseValue (columns : WideColumns)
deriving DecidableEq, Repr

/-- What is known of a key: its last value and the merge operands since, with the oldest first. -/
structure KeyState where
  existing : BaseValue
  operands : List Slice
deriving DecidableEq, Repr

open KeyState

namespace KeyState

/-- A write replaces what was there, a deletion removes it, and a merge adds an operand. -/
def apply (s : KeyState) : Update → KeyState
  | .put value => ⟨.plainBaseValue value, []⟩
  | .putEntity columns => ⟨.wideBaseValue columns, []⟩
  | .delete => ⟨.noBaseValue, []⟩
  | .singleDelete => ⟨.noBaseValue, []⟩
  | .merge operand => ⟨s.existing, s.operands ++ [operand]⟩

/-- Operands newer than all that is known. -/
def push (s : KeyState) (context : List Slice) : KeyState := ⟨s.existing, s.operands ++ context⟩

/-- The state of a key that `u` decides, with the operands after `u`. For a merge, `u` is the oldest
update and its operand is among those of the context. -/
def decided (init : KeyState) (context : List Slice) (u : Update) : KeyState :=
  if u.isMerge then init.push context else (init.apply u).push context

lemma apply_eq_of_not_isMerge {u : Update} (h : u.isMerge = false) (s t : KeyState) :
    s.apply u = t.apply u := by
  cases u with
  | merge operand => simp [Update.isMerge] at h
  | _ => rfl

lemma push_apply_merge (s : KeyState) (operand : Slice) (context : List Slice) :
    (s.apply (.merge operand)).push context = s.push (operand :: context) := by
  simp [apply, push]

@[simp]
lemma push_nil (s : KeyState) : s.push [] = s := by
  simp [push]

end KeyState

section Latest

variable {K : Type} [LinearOrder K] {index before rest : List (Entry K)} {p : Position K} {key : K}

/-- The updates of a key in an index, the newest first. -/
def updatesOf (k : K) (index : List (Entry K)) : List Update :=
  (index.filter fun e => decide (e.1 = k)).map Prod.snd

/-- The state of a key after its updates in an index. -/
def stateOf (init : KeyState) (index : List (Entry K)) (k : K) : KeyState :=
  (updatesOf k index).foldr (fun u s => s.apply u) init

lemma updatesOf_append (k : K) (l l' : List (Entry K)) :
    updatesOf k (l ++ l') = updatesOf k l ++ updatesOf k l' := by
  simp [updatesOf]

lemma updatesOf_cons_of_eq {k : K} {e : Entry K} (l : List (Entry K)) (h : e.1 = k) :
    updatesOf k (e :: l) = e.2 :: updatesOf k l := by
  simp [updatesOf, h]

lemma updatesOf_cons_of_ne {k : K} {e : Entry K} (l : List (Entry K)) (h : e.1 ≠ k) :
    updatesOf k (e :: l) = updatesOf k l := by
  simp [updatesOf, h]

lemma updatesOf_eq_nil {k : K} {l : List (Entry K)} (h : k ∉ keys l) : updatesOf k l = [] := by
  simp only [updatesOf, map_eq_nil_iff, filter_eq_nil_iff, decide_eq_true_eq]
  exact fun e he hek => h (mem_keys.2 ⟨e, he, hek⟩)

lemma stateOf_cons_of_eq {k : K} {e : Entry K} (init : KeyState) (l : List (Entry K))
    (h : e.1 = k) : stateOf init (e :: l) k = (stateOf init l k).apply e.2 := by
  rw [stateOf, updatesOf_cons_of_eq l h]
  rfl

lemma stateOf_of_notMem {k : K} (init : KeyState) {l : List (Entry K)} (h : k ∉ keys l) :
    stateOf init l k = init := by
  rw [stateOf, updatesOf_eq_nil h]
  rfl

/-- `FindLatestUpdate` found the entry at `p`, which decides the state of the key. -/
structure Finds (index : List (Entry K)) (key : K) (state : KeyState → KeyState) (l : Latest K)
    (p : Position K) : Prop where
  position : l.position = some p
  on : p.On index
  key_eq : p.key = key
  state_eq : ∀ init, state init = init.decided l.mergeContext p.entry.2
  deleted_iff : l.result = .deleted ↔ p.entry.2 = .delete ∨ p.entry.2 = .singleDelete
  context_ne : p.entry.2.isMerge → l.mergeContext ≠ []

/-- After the oldest entry of a key that has only merges, the iterator steps back onto it. -/
lemma Finds.of_merges {m : Entry K} {context : List Slice} {l : Latest K}
    (hlist : (m :: before).reverse ++ rest = index) (hkey : m.1 = key) (hm : m.2.isMerge)
    (hl : l = ⟨.mergeInProgress, context, some ⟨before, m, rest⟩⟩) (hcontext : context ≠ [])
    (hrest : key ∉ keys rest) :
    Finds index key (fun init => (stateOf init rest key).push context) l ⟨before, m, rest⟩ := by
  subst hl
  refine ⟨rfl, by simpa [Position.On] using hlist, hkey, fun init => ?_, ?_, fun _ => hcontext⟩
  · simp [stateOf_of_notMem init hrest, decided, hm]
  · constructor
    · intro h
      exact absurd h (by simp)
    · intro h
      simp only at h
      rcases h with h | h <;> rw [h] at hm <;> exact absurd hm (by decide)

/-- An entry that is not a merge decides the state of its key. -/
lemma Finds.of_entry {e : Entry K} {result : Result} {context : List Slice}
    (hlist : before.reverse ++ e :: rest = index) (hkey : e.1 = key) (hm : e.2.isMerge = false)
    (hresult : result = .deleted ↔ e.2 = .delete ∨ e.2 = .singleDelete) :
    Finds index key (fun init => (stateOf init (e :: rest) key).push context)
      ⟨result, context, some ⟨before, e, rest⟩⟩ ⟨before, e, rest⟩ := by
  refine ⟨rfl, hlist, hkey, fun init => ?_, hresult, fun h => absurd h (by simp [hm])⟩
  simp only [stateOf_cons_of_eq init rest hkey, decided, hm, Bool.false_eq_true, if_false]
  rw [apply_eq_of_not_isMerge hm]

/-- Where the loop of `FindLatestUpdate` may be: at the first entry of the key, or after merges. -/
def Collected (key : K) (result : Result) (context : List Slice) (before rest : List (Entry K)) :
    Prop :=
  (∃ e rest', rest = e :: rest' ∧ e.1 = key) ∨
    ∃ m before', before = m :: before' ∧ m.1 = key ∧ m.2.isMerge ∧ context ≠ [] ∧
      result = .mergeInProgress

lemma findLatestUpdateLoop_finds {result : Result} {context : List Slice}
    (hlist : before.reverse ++ rest = index) (hs : (keys rest).Pairwise (· ≤ ·))
    (hge : ∀ x ∈ keys rest, key ≤ x) (hat : Collected key result context before rest) :
    ∃ p, Finds index key (fun init => (stateOf init rest key).push context)
      (findLatestUpdateLoop index key result context before rest) p := by
  induction rest generalizing result context before with
  | nil =>
    rcases hat with ⟨e, rest', hrest, -⟩ | ⟨m, before', rfl, hkey, hm, hcontext, rfl⟩
    · exact absurd hrest (by simp)
    · refine ⟨_, Finds.of_merges hlist hkey hm ?_ hcontext (by simp [keys])⟩
      have hrev : index.reverse = m :: before' := by
        rw [← hlist]
        simp
      rw [findLatestUpdateLoop, seekToLast, hrev]
      rfl
  | cons e rest ih =>
    have hpair := pairwise_cons.1 hs
    by_cases hkey : e.1 = key
    · cases he : e.2 with
      | merge operand =>
        have hstep : findLatestUpdateLoop index key result context before (e :: rest) =
            findLatestUpdateLoop index key .mergeInProgress (operand :: context) (e :: before)
              rest := by
          simp [findLatestUpdateLoop, hkey, he]
        rw [hstep]
        have hstate : (fun init => (stateOf init (e :: rest) key).push context) =
            fun init => (stateOf init rest key).push (operand :: context) := by
          funext init
          rw [stateOf_cons_of_eq init rest hkey, he, push_apply_merge]
        rw [hstate]
        refine ih (by simpa using hlist) hpair.2 (fun x hx => hge x (mem_cons_of_mem _ hx)) ?_
        exact .inr ⟨e, before, rfl, hkey, by simp [he, Update.isMerge], by simp, rfl⟩
      | _ =>
        simp only [findLatestUpdateLoop, hkey, he, ne_eq, not_true_eq_false, if_false]
        exact ⟨_, Finds.of_entry hlist hkey (by simp [he, Update.isMerge]) (by simp [he])⟩
    · rcases hat with ⟨e', rest', hrest, hkey'⟩ | ⟨m, before', rfl, hmkey, hm, hcontext, rfl⟩
      · obtain ⟨rfl, -⟩ := cons.inj hrest
        exact absurd hkey' hkey
      · refine ⟨_, Finds.of_merges hlist hmkey hm ?_ hcontext ?_⟩
        · simp only [findLatestUpdateLoop, hkey, ne_eq, not_false_eq_true, if_true]
          rfl
        · have hlt : key < e.1 := lt_of_le_of_ne (hge _ (by simp [keys])) (Ne.symm hkey)
          intro hmem
          rcases mem_cons.1 hmem with h | h
          · exact hkey h.symm
          · exact absurd (hpair.1 _ h) (not_le.2 hlt)

/-- `FindLatestUpdate` stays on the key and finds what the updates of the key do. -/
lemma findLatestUpdate_finds (hs : Sorted index) (hp : p.On index) :
    ∃ q, Finds index p.key (fun init => stateOf init index p.key) (findLatestUpdate index p) q := by
  obtain ⟨q, hq, hon, hkey, hbelow⟩ := toFirstOfKey_spec hs hp
  obtain ⟨-, hge, -, hafter⟩ := hon.order hs
  have hlist := hon
  rw [Position.On] at hlist
  have hcons : (keys (q.entry :: q.after)).Pairwise (· ≤ ·) := pairwise_cons.2 ⟨hge, hafter⟩
  have hleast : ∀ x ∈ keys (q.entry :: q.after), p.key ≤ x := by
    intro x hx
    rw [← hkey]
    rcases mem_cons.1 hx with rfl | hx
    · exact le_rfl
    · exact hge x hx
  have hat : Collected p.key .notFound [] q.before (q.entry :: q.after) :=
    .inl ⟨q.entry, q.after, rfl, hkey⟩
  have hstate : (fun init => stateOf init index p.key) =
      fun init => (stateOf init (q.entry :: q.after) p.key).push [] := by
    funext init
    rw [push_nil, stateOf, stateOf, ← hlist, updatesOf_append, updatesOf_eq_nil, nil_append]
    intro hmem
    rw [keys_reverse, mem_reverse] at hmem
    exact lt_irrefl _ (hbelow _ hmem)
  rw [findLatestUpdate, hq, hstate]
  exact findLatestUpdateLoop_finds hlist hcons hleast hat

end Latest

/-! ## The index of a batch -/

section Batch

variable {K : Type} [LinearOrder K] {index : List (Entry K)} {e : Entry K} {k : K}

lemma keys_insert_perm : (keys (insert e index)).Perm (e.1 :: keys index) := by
  induction index with
  | nil => exact Perm.refl _
  | cons x rest ih =>
    rw [insert]
    split_ifs with h
    · exact (Perm.cons x.1 ih).trans (Perm.swap e.1 x.1 _)
    · exact Perm.refl _

lemma sorted_insert (hs : Sorted index) : Sorted (insert e index) := by
  induction index with
  | nil => exact pairwise_singleton _ _
  | cons x rest ih =>
    obtain ⟨hle, hrest⟩ := pairwise_cons.1 hs
    rw [insert]
    split_ifs with h
    · refine pairwise_cons.2 ⟨fun y hy => ?_, ih hrest⟩
      rcases mem_cons.1 (keys_insert_perm.mem_iff.1 hy) with rfl | hy
      · exact h.le
      · exact hle y hy
    · refine pairwise_cons.2 ⟨fun y hy => ?_, hs⟩
      rcases mem_cons.1 hy with rfl | hy
      · exact not_lt.1 h
      · exact (not_lt.1 h).trans (hle y hy)

lemma updatesOf_insert : updatesOf k (insert e index) =
      if e.1 = k then e.2 :: updatesOf k index else updatesOf k index := by
  induction index with
  | nil => by_cases h : e.1 = k <;> simp [insert, updatesOf, h]
  | cons x rest ih =>
    rw [insert]
    split_ifs with hlt hk hk
    · rw [if_pos hk] at ih
      have hx : x.1 ≠ k := fun hx => absurd hlt (by rw [hx, hk]; exact lt_irrefl k)
      rw [updatesOf_cons_of_ne _ hx, updatesOf_cons_of_ne _ hx, ih]
    · rw [if_neg hk] at ih
      by_cases hx : x.1 = k
      · rw [updatesOf_cons_of_eq _ hx, updatesOf_cons_of_eq _ hx, ih]
      · rw [updatesOf_cons_of_ne _ hx, updatesOf_cons_of_ne _ hx, ih]
    · exact updatesOf_cons_of_eq _ hk
    · exact updatesOf_cons_of_ne _ hk

/-- What `UpdateExistingEntry` does when it finds an entry to update. -/
lemma updateExistingEntry_some {overwriteKey : Bool} {index' : List (Entry K)}
    (h : updateExistingEntry overwriteKey index e = some index') :
    ∃ p : Position K, p.On index ∧ p.key = e.1 ∧ e.2.isMerge = false ∧
      (∀ x ∈ p.before, x.1 < e.1) ∧ index' = p.before.reverse ++ e :: p.after := by
  rw [updateExistingEntry] at h
  cases hseek : seek index e.1 with
  | none => simp [hseek] at h
  | some p =>
    simp only [hseek] at h
    split_ifs at h with hover hkey hmerge
    obtain ⟨skipped, -, hbefore, hskip, -⟩ := scanForward_some hseek
    refine ⟨p, scanForward_on (by simp) hseek, not_not.1 hkey, Bool.eq_false_iff.2 hmerge, ?_,
      (some.inj h).symm⟩
    intro x hx
    rw [hbefore] at hx
    simpa using hskip x (by simpa using hx)

/-- Adding a record keeps the order, adds its key, and applies it to the state of its key. -/
lemma addOrUpdateIndex_spec (overwriteKey : Bool) (hs : Sorted index) (e : Entry K) :
    Sorted (addOrUpdateIndex overwriteKey index e) ∧
      (∀ k, k ∈ keys (addOrUpdateIndex overwriteKey index e) ↔ k = e.1 ∨ k ∈ keys index) ∧
      ∀ init k, stateOf init (addOrUpdateIndex overwriteKey index e) k =
        if e.1 = k then (stateOf init index k).apply e.2 else stateOf init index k := by
  rw [addOrUpdateIndex]
  cases hupdate : updateExistingEntry overwriteKey index e with
  | none =>
    refine ⟨sorted_insert hs, fun k => keys_insert_perm.mem_iff.trans mem_cons, fun init k => ?_⟩
    simp only [Option.getD_none, stateOf, updatesOf_insert]
    split_ifs <;> rfl
  | some index' =>
    obtain ⟨p, hp, hkey, hmerge, hbelow, rfl⟩ := updateExistingEntry_some hupdate
    rw [Position.On] at hp
    have hkeys : keys (p.before.reverse ++ e :: p.after) = keys index := by
      rw [← hp, keys_append, keys_append]
      simp only [keys, map_cons, ← hkey]
      rfl
    simp only [Option.getD_some]
    refine ⟨by rw [Sorted, hkeys]; exact hs, fun k => ?_, fun init k => ?_⟩
    · rw [hkeys]
      refine ⟨.inr, fun h => h.elim (fun h => ?_) id⟩
      rw [← hp, h, ← hkey]
      simp [keys, Position.key]
    · rw [← hp, stateOf, stateOf, updatesOf_append, updatesOf_append]
      split_ifs with hk
      · have hnil : updatesOf k p.before.reverse = [] := by
          refine updatesOf_eq_nil fun hmem => ?_
          rw [keys_reverse, mem_reverse] at hmem
          obtain ⟨x, hx, rfl⟩ := mem_keys.1 hmem
          exact absurd (hbelow x hx) (by rw [hk]; exact lt_irrefl _)
        rw [hnil, updatesOf_cons_of_eq _ hk, updatesOf_cons_of_eq _ (hkey.trans hk)]
        exact apply_eq_of_not_isMerge hmerge _ _
      · rw [updatesOf_cons_of_ne _ hk, updatesOf_cons_of_ne _ (fun h => hk (hkey.symm.trans h))]

/-- The state of a key after all records of a batch, one after the other. -/
def applyBatch (init : KeyState) (batch : List (Entry K)) (k : K) : KeyState :=
  batch.foldl (fun s e => if e.1 = k then s.apply e.2 else s) init

/-- In both modes, the index of a batch is ordered, has the keys of the batch, and says of each key
what the records of the batch do to it. -/
lemma indexOf_spec (overwriteKey : Bool) (batch : List (Entry K)) :
    Sorted (indexOf overwriteKey batch) ∧
      (∀ k, k ∈ keys (indexOf overwriteKey batch) ↔ k ∈ keys batch) ∧
      ∀ init k, stateOf init (indexOf overwriteKey batch) k = applyBatch init batch k := by
  induction batch using reverseRecOn with
  | nil => exact ⟨Pairwise.nil, fun _ => Iff.rfl, fun _ _ => rfl⟩
  | append_singleton batch e ih =>
    obtain ⟨hs, hkeys, hstate⟩ := ih
    have hindex : indexOf overwriteKey (batch ++ [e]) =
        addOrUpdateIndex overwriteKey (indexOf overwriteKey batch) e := by
      simp [indexOf]
    rw [hindex]
    obtain ⟨hs', hkeys', hstate'⟩ := addOrUpdateIndex_spec overwriteKey hs e
    refine ⟨hs', fun k => ?_, fun init k => ?_⟩
    · rw [hkeys', hkeys, keys_append, mem_append]
      simp [keys, or_comm]
    · rw [hstate', hstate]
      simp [applyBatch]

end Batch

end BucketLSM.WriteBatchWithIndex
