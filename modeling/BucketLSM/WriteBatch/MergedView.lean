import BucketLSM.WriteBatch.BaseDelta

/-!
# A transaction iterator reads the merged view

The map that a batch makes of the base is defined key by key, and a reader expects a cursor over its
sorted keys. The invariant of `BaseDeltaIterator` on a key `c` is that both cursors are at their
first key that is not before `c` in the direction of the scan. `UpdateCurrent` establishes it from
cursors that are at their first keys of a set closed in that direction, and each call brings the
cursors there.
-/

namespace BucketLSM.WriteBatchWithIndex

open Cursor List KeyState Option

section Reference

variable {K : Type} [LinearOrder K]

/-- The value of a key in a state, where all merge operands are given to the operator at once. -/
def KeyState.shown (mergeOperator : MergeOperator K) (k : K) (s : KeyState) : Option Shown :=
  if s.operands = [] then
    match s.existing with
    | .noBaseValue => none
    | .plainBaseValue value => some (.ofPlain value)
    | .wideBaseValue columns => some (.ofColumns columns)
  else some (mergeOperator k s.existing s.operands).shown

namespace Setup

variable (env : Setup K)

/-- A key before the batch. -/
def initial (k : K) : KeyState :=
  ⟨if k ∈ env.base.keys then BaseDeltaIterator.baseValueOf (env.base.columns k) else .noBaseValue,
    []⟩

/-- The map that the batch makes of the base. -/
def merged (k : K) : Option Shown :=
  (applyBatch (env.initial k) env.batch k).shown env.mergeOperator k

/-- The keys of that map in order. -/
def viewKeys : List K :=
  ((env.base.keys ++ keys env.batch).dedup.insertionSort (· ≤ ·)).filter fun k =>
    (env.merged k).isSome

end Setup

/-- A cursor over a sorted list of keys. -/
def cursorStep (view : List K) (at? : Option K) : ReadOp K → Option K
  | .seekToFirst => view.head?
  | .seekToLast => view.getLast?
  | .seek target => view.find? fun k => decide (target ≤ k)
  | .seekForPrev target => view.reverse.find? fun k => decide (k ≤ target)
  | .next => at?.bind fun c => view.find? fun k => decide (c < k)
  | .prev => at?.bind fun c => view.reverse.find? fun k => decide (k < c)
  | .prepareValue => at?

end Reference

/-! ## Keys and values of the view -/

section View

variable {K : Type} [LinearOrder K] (env : Setup K) {k : K}

namespace Setup

/-- The keys of the base. -/
def baseKeys : Set K := {k | k ∈ env.base.keys}

/-- The keys of the batch. -/
def deltaKeys : Set K := {k | k ∈ keys env.index}

/-- The keys of the view. -/
def visible : Set K := {k | (env.merged k).isSome}

lemma sorted_index : Sorted env.index := (indexOf_spec env.overwriteKey env.batch).1

lemma merged_eq (k : K) :
    env.merged k = (stateOf (env.initial k) env.index k).shown env.mergeOperator k := by
  rw [merged, index, (indexOf_spec env.overwriteKey env.batch).2.2]

variable {env}

lemma columns_eq_of_hasDefaultColumnOnly {columns : WideColumns}
    (h : hasDefaultColumnOnly columns = true) :
    Shown.ofPlain (getDefaultColumn columns) = Shown.ofColumns columns := by
  rw [hasDefaultColumnOnly, Bool.and_eq_true, decide_eq_true_eq] at h
  obtain ⟨c, rfl⟩ := length_eq_one_iff.1 h.1
  have hname : c.name = kDefaultWideColumnName := by simpa [hasDefaultColumn] using h.2
  simp [Shown.ofPlain, Shown.ofColumns, hasDefaultColumn, getDefaultColumn, ← hname]

/-- A key that the batch does not have is as in the base. -/
lemma merged_of_base (hb : k ∈ env.baseKeys) (hd : k ∉ env.deltaKeys) :
    env.merged k = some (.ofColumns (env.base.columns k)) := by
  rw [merged_eq, stateOf_of_notMem _ hd]
  have hb' : k ∈ env.base.keys := hb
  simp only [initial, shown, if_true, if_pos hb', BaseDeltaIterator.baseValueOf]
  by_cases h : hasDefaultColumnOnly (env.base.columns k) = true
  · simp only [if_pos h, columns_eq_of_hasDefaultColumnOnly h]
  · simp only [if_neg h]

lemma mem_or_mem_of_visible (h : k ∈ env.visible) : k ∈ env.baseKeys ∨ k ∈ env.deltaKeys := by
  by_contra hnot
  rw [not_or] at hnot
  have hb : k ∉ env.base.keys := hnot.1
  have hnone : env.merged k = none := by
    rw [merged_eq, stateOf_of_notMem _ hnot.2]
    simp [initial, hb, shown]
  have hsome : (env.merged k).isSome = true := h
  rw [hnone] at hsome
  exact absurd hsome (by simp)

/-- What the entry that `FindLatestUpdate` finds says of the value of the key. -/
lemma merged_of_finds {l : Latest K} {p : Position K}
    (hf : Finds env.index k (fun init => stateOf init env.index k) l p) : env.merged k =
      ((env.initial k).decided l.mergeContext p.entry.2).shown env.mergeOperator k := by
  rw [merged_eq]
  have h := hf.state_eq (env.initial k)
  rw [h]

/-- The key is hidden exactly when it is deleted and nothing is merged into it since. -/
lemma notMem_visible_iff {l : Latest K} {p : Position K}
    (hf : Finds env.index k (fun init => stateOf init env.index k) l p) :
    k ∉ env.visible ↔ l.result = .deleted ∧ l.mergeContext = [] := by
  have hvis : k ∉ env.visible ↔ env.merged k = none := by
    simp [visible]
  rw [hvis, merged_of_finds hf, hf.deleted_iff]
  have hne := hf.context_ne
  cases hu : p.entry.2 with
  | merge operand =>
    rw [hu] at hne
    simp [decided, Update.isMerge, push, initial, shown, hne rfl]
  | _ =>
    by_cases hctx : l.mergeContext = [] <;>
      simp [decided, Update.isMerge, push, apply, shown, hctx]

lemma sorted_viewKeys : env.viewKeys.Pairwise (· < ·) := by
  have hperm := perm_insertionSort (· ≤ ·) (env.base.keys ++ keys env.batch).dedup
  have hnodup := hperm.nodup_iff.2 (nodup_dedup _)
  have hle := pairwise_insertionSort (· ≤ ·) (env.base.keys ++ keys env.batch).dedup
  refine Pairwise.filter _ ((Pairwise.and hle hnodup).imp ?_)
  intro a b h
  exact lt_of_le_of_ne h.1 h.2

lemma mem_viewKeys : k ∈ env.viewKeys ↔ k ∈ env.visible := by
  have hperm := perm_insertionSort (· ≤ ·) (env.base.keys ++ keys env.batch).dedup
  rw [viewKeys, mem_filter, hperm.mem_iff, mem_dedup, mem_append]
  refine ⟨fun h => h.2, fun h => ⟨?_, h⟩⟩
  rcases mem_or_mem_of_visible h with hb | hd
  · exact .inl hb
  · exact .inr (((indexOf_spec env.overwriteKey env.batch).2.1 k).1 hd)

lemma scan_viewKeys (forward : Bool) {P : K → Prop} [DecidablePred P] :
    IsNext forward {k | k ∈ env.visible ∧ P k}
      (scan forward (fun k => decide (P k)) env.viewKeys) := by
  refine (scan_isNext sorted_viewKeys forward _).congr (Set.ext fun k => ?_)
  simp only [Set.mem_ofPred_eq, mem_viewKeys, decide_eq_true_eq]

end Setup

end View

/-! ## The invariant -/

namespace BaseDeltaIterator

section Invariant

variable {K : Type} [LinearOrder K]

/-- Both cursors are at their first keys with `P`. -/
structure Looks (env : Setup K) (s : BaseDeltaIterator K) (P : K → Prop) : Prop where
  base : IsNext s.forward {k | k ∈ env.baseKeys ∧ P k} s.base
  delta : IsNext s.forward {k | k ∈ env.deltaKeys ∧ P k} s.deltaKey
  on : ∀ p, s.delta = some p → p.On env.index

/-- The iterator is on the key `c`. -/
structure At (env : Setup K) (s : BaseDeltaIterator K) (c : K) : Prop where
  status : s.status = .ok
  looks : s.Looks env fun k => ¬ Ahead s.forward k c
  current : if s.currentAtBase then s.base = some c ∧ c ∉ env.deltaKeys else s.deltaKey = some c
  equal : s.equalKeys = true ↔ s.base = some c ∧ s.deltaKey = some c
  shown : env.merged c = some ⟨(s.prepareValue env).value, (s.prepareValue env).columns⟩

/-- The iterator shows what a cursor at a position of the view would show. -/
def Shows (env : Setup K) (s : BaseDeltaIterator K) : Option K → Prop
  | none => s.valid = false
  | some c => s.At env c

variable {env : Setup K} {s : BaseDeltaIterator K} {P : K → Prop} {b c d : K}

lemma prepareValue_settleAtBase (env : Setup K) (hb : s.base = some b) :
    (s.settleAtBase env).prepareValue env =
      { s with currentAtBase := true }.setShown (.ofColumns (env.base.columns b)) := by
  cases h : env.allowUnpreparedValue <;>
    simp [settleAtBase, prepareValue, h, setValueAndColumnsFromBase, hb]

lemma setValueAndColumnsFromBase_eq (env : Setup K) (s : BaseDeltaIterator K) :
    ∃ value columns, s.setValueAndColumnsFromBase env =
      { s with value := value, columns := columns } := by
  rw [setValueAndColumnsFromBase]
  split
  · exact ⟨_, _, rfl⟩
  · exact ⟨s.value, s.columns, rfl⟩

/-- Settling at the base changes nothing but what is current and what is shown. -/
lemma settleAtBase_eq (env : Setup K) (s : BaseDeltaIterator K) :
    ∃ value columns, s.settleAtBase env =
      { s with currentAtBase := true, value := value, columns := columns } := by
  rw [settleAtBase]
  cases env.allowUnpreparedValue with
  | true => exact ⟨s.value, s.columns, rfl⟩
  | false =>
    rw [if_neg Bool.false_ne_true]
    exact setValueAndColumnsFromBase_eq env { s with currentAtBase := true }

/-- `UpdateCurrent` may stop at the base if its key comes first and the batch does not have it. -/
lemma at_settleAtBase (hP : Closed s.forward P) (hs : s.Looks env P) (hok : s.status = .ok)
    (hequal : s.equalKeys = false) (hb : s.base = some b)
    (hd : ∀ d, s.deltaKey = some d → Ahead s.forward b d) : (s.settleAtBase env).At env b := by
  have hbase := hs.base
  rw [hb] at hbase
  have hbmem := hbase.mem
  have hnot : b ∉ env.deltaKeys := by
    intro hbd
    have hmem : b ∈ {k | k ∈ env.deltaKeys ∧ P k} := ⟨hbd, hbmem.2⟩
    cases hdelta : s.deltaKey with
    | none =>
      have hnone := hs.delta
      rw [hdelta] at hnone
      exact hnone.notMem_of_none hmem
    | some d =>
      have hsome := hs.delta
      rw [hdelta] at hsome
      exact hsome.not_ahead hmem (hd d hdelta)
  have hshown := prepareValue_settleAtBase env hb
  obtain ⟨value, columns, heq⟩ := settleAtBase_eq env s
  refine ⟨by rw [heq]; exact hok, ?_, ?_, ?_, ?_⟩
  · have hfrom : ∀ k, ¬ Ahead s.forward k b → P k := fun k hk => hP.of_not_ahead hbmem.2 hk
    rw [heq]
    refine ⟨hs.base.narrow hfrom fun x hx => ?_, hs.delta.narrow hfrom fun x hx => ?_, hs.on⟩
    · obtain rfl : b = x := some.inj (hb.symm.trans hx)
      exact not_ahead_self
    · exact (hd x hx).not_ahead
  · rw [heq]
    exact ⟨hb, hnot⟩
  · rw [heq]
    refine ⟨fun h => absurd h (by simp [hequal]), fun h => ?_⟩
    have hmem := hs.delta
    rw [show s.deltaKey = some b from h.2] at hmem
    exact absurd hmem.mem.1 hnot
  · rw [hshown, Setup.merged_of_base hbmem.1 hnot]
    rfl

/-- Settling at the delta changes nothing but what is current and what is shown. -/
lemma settleAtDelta_eq (env : Setup K) (s : BaseDeltaIterator K) :
    ∃ value columns, s.settleAtDelta env =
      { s with currentAtBase := false, value := value, columns := columns } := by
  rw [settleAtDelta, setValueAndColumnsFromDelta]
  cases s.delta with
  | none => exact ⟨s.value, s.columns, rfl⟩
  | some p =>
    simp only
    split_ifs
    · cases p.entry.2 <;> exact ⟨_, _, rfl⟩
    · cases p.entry.2 with
      | merge operand =>
        cases s.equalKeys <;> cases s.base <;> exact ⟨_, _, rfl⟩
      | _ => exact ⟨_, _, rfl⟩

lemma prepareValue_settleAtDelta (env : Setup K) (s : BaseDeltaIterator K) :
    (s.settleAtDelta env).prepareValue env = s.settleAtDelta env := by
  obtain ⟨value, columns, heq⟩ := settleAtDelta_eq env s
  rw [heq]
  simp [prepareValue]

/-- What is shown at the delta is what its updates make of the key. -/
lemma shown_settleAtDelta {l : Latest K} {p : Position K}
    (hf : Finds env.index d (fun init => stateOf init env.index d) l p) (hp : s.delta = some p)
    (hcontext : s.mergeContext = l.mergeContext) (hvis : d ∈ env.visible)
    (hequal : s.equalKeys = true → s.base = some d)
    (hbase : s.equalKeys = true ↔ d ∈ env.base.keys) :
    env.merged d = some ⟨(s.settleAtDelta env).value, (s.settleAtDelta env).columns⟩ := by
  have hnot := mt (Setup.notMem_visible_iff hf).2 (not_not.2 hvis)
  have hkey := hf.key_eq
  rw [hf.deleted_iff] at hnot
  rw [Setup.merged_of_finds hf, settleAtDelta, setValueAndColumnsFromDelta]
  simp only [hp, hcontext, mergeKey, hkey]
  cases hu : p.entry.2 with
  | merge operand =>
    have hne := hf.context_ne (by simp [hu, Update.isMerge])
    simp only [decided, Update.isMerge, push, Setup.initial, shown,
      List.nil_append, hne, if_true, if_false]
    cases he : s.equalKeys with
    | true =>
      rw [hequal he, if_pos (hbase.1 he)]
      rfl
    | false =>
      rw [if_neg (mt hbase.2 (by simp [he]))]
      rfl
  | _ =>
    by_cases hctx : l.mergeContext = []
    · simp_all [decided, Update.isMerge, push, apply, shown, setShown]
    · simp [decided, Update.isMerge, push, apply, shown, hctx, setShown]

/-- `UpdateCurrent` may stop at the delta if its key comes first, or with the base's, and is not
hidden. -/
lemma at_settleAtDelta {l : Latest K} {p : Position K} (hP : Closed s.forward P)
    (hs : s.Looks env P) (hok : s.status = .ok)
    (hf : Finds env.index d (fun init => stateOf init env.index d) l p) (hp : s.delta = some p)
    (hcontext : s.mergeContext = l.mergeContext) (hvis : d ∈ env.visible)
    (hequal : s.equalKeys = true ↔ s.base = some d)
    (hb : ∀ b, s.base = some b → ¬ Ahead s.forward b d) : (s.settleAtDelta env).At env d := by
  have hkey : s.deltaKey = some d := by
    rw [deltaKey, hp, map_some, hf.key_eq]
  have hdelta := hs.delta
  rw [hkey] at hdelta
  have hbase : s.equalKeys = true ↔ d ∈ env.base.keys := by
    refine hequal.trans ⟨fun h => ?_, fun h => ?_⟩
    · have hmem := hs.base
      rw [h] at hmem
      exact hmem.mem.1
    · have hmem : d ∈ {k | k ∈ env.baseKeys ∧ P k} := ⟨h, hdelta.mem.2⟩
      have hnext := hs.base
      cases hsb : s.base with
      | none =>
        rw [hsb] at hnext
        exact absurd hmem hnext.notMem_of_none
      | some b =>
        rw [hsb] at hnext
        by_contra hne
        exact hb b hsb ((isNext_some.1 hnext).2 d hmem fun h => hne (by rw [h]))
  have hshown := shown_settleAtDelta hf hp hcontext hvis hequal.1 hbase
  have hprepare := prepareValue_settleAtDelta env s
  obtain ⟨value, columns, heq⟩ := settleAtDelta_eq env s
  refine ⟨by rw [heq]; exact hok, ?_, by rw [heq]; exact hkey, ?_, by rw [hprepare]; exact hshown⟩
  · have hfrom : ∀ k, ¬ Ahead s.forward k d → P k := fun k hk => hP.of_not_ahead hdelta.mem.2 hk
    rw [heq]
    refine ⟨hs.base.narrow hfrom hb, hs.delta.narrow hfrom fun x hx => ?_, hs.on⟩
    obtain rfl : d = x := some.inj (hkey.symm.trans hx)
    exact not_ahead_self
  · rw [heq]
    exact ⟨fun h => ⟨hequal.1 h, hkey⟩, fun h => hequal.2 h.1⟩

end Invariant

/-! ## UpdateCurrent -/

section Update

variable {K : Type} [LinearOrder K] {env : Setup K} {s : BaseDeltaIterator K} {P : K → Prop}
  {b c d : K} {p : Position K}

/-- What `UpdateCurrent` knows after it looked at the delta. -/
structure Looked (env : Setup K) (P : K → Prop) (result : Result) (s : BaseDeltaIterator K) :
    Prop where
  looks : s.Looks env P
  equal : s.equalKeys = false
  found : ∀ d, s.deltaKey = some d → ∃ (l : Latest K) (p : Position K),
    Finds env.index d (fun init => stateOf init env.index d) l p ∧ s.delta = some p ∧
      s.mergeContext = l.mergeContext ∧ result = l.result

lemma lookAtDelta_looked (hs : s.Looks env P) :
    Looked env P (lookAtDelta env s).1 (lookAtDelta env s).2 ∧
      (lookAtDelta env s).2.forward = s.forward ∧ (lookAtDelta env s).2.status = s.status := by
  cases hp : s.delta with
  | none =>
    have heq : lookAtDelta env s = (.notFound, { s with equalKeys := false }) := by
      simp only [lookAtDelta, hp]
    rw [heq]
    refine ⟨⟨⟨hs.base, hs.delta, hs.on⟩, rfl, fun d hd => ?_⟩, rfl, rfl⟩
    obtain ⟨p, hp', -⟩ := map_eq_some_iff.1 hd
    exact absurd (hp.symm.trans hp') (by simp)
  | some p =>
    obtain ⟨q, hq⟩ := findLatestUpdate_finds env.sorted_index (hs.on p hp)
    have heq : lookAtDelta env s = ((findLatestUpdate env.index p).result, { s with
          delta := some q
          mergeContext := (findLatestUpdate env.index p).mergeContext
          equalKeys := false }) := by
      simp only [lookAtDelta, hp, hq.position]
    have hkey : some q.key = s.deltaKey := by
      rw [deltaKey, hp, hq.key_eq, map_some]
    have hdelta := hs.delta
    rw [← hkey] at hdelta
    rw [heq]
    refine ⟨⟨⟨hs.base, hdelta, fun r hr => ?_⟩, rfl, fun d hd => ?_⟩, rfl, rfl⟩
    · obtain rfl := some.inj hr
      exact hq.on
    · obtain rfl : p.key = d := hq.key_eq.symm.trans (some.inj hd)
      exact ⟨_, q, hq, rfl, rfl, rfl⟩

lemma finite_deltaKeys (P : K → Prop) : {k | k ∈ env.deltaKeys ∧ P k}.Finite :=
  (finite_toSet (keys env.index)).subset fun _ hk => hk.1

lemma ncard_ahead_lt (hP : Closed s.forward P) (hd : d ∈ env.deltaKeys) (hPd : P d) :
    {k | k ∈ env.deltaKeys ∧ Ahead s.forward d k}.ncard < {k | k ∈ env.deltaKeys ∧ P k}.ncard := by
  refine Set.ncard_lt_ncard ⟨fun k hk => ⟨hk.1, hP d k hPd hk.2⟩, fun hsub => ?_⟩
    (finite_deltaKeys P)
  exact not_ahead_self (hsub (show d ∈ {k | k ∈ env.deltaKeys ∧ P k} from ⟨hd, hPd⟩)).2

lemma looks_of_deltaKey (hs : s.Looks env P) (hd : s.deltaKey = some d) :
    d ∈ env.deltaKeys ∧ P d := by
  have h := hs.delta
  rw [hd] at h
  exact h.mem

lemma looks_of_base (hs : s.Looks env P) (hb : s.base = some b) : b ∈ env.baseKeys ∧ P b := by
  have h := hs.base
  rw [hb] at h
  exact h.mem

/-- The next visible key, if no cursor is before it. -/
lemma isNext_visible (hs : s.Looks env P) (hc : c ∈ env.visible) (hPc : P c)
    (hb : ∀ b, s.base = some b → ¬ Ahead s.forward b c)
    (hd : ∀ d, s.deltaKey = some d → ¬ Ahead s.forward d c) :
    IsNext s.forward {k | k ∈ env.visible ∧ P k} (some c) := by
  refine IsNext.of_cover hs.base hs.delta (fun x hx => ?_) ⟨hc, hPc⟩ hb hd
  exact (Setup.mem_or_mem_of_visible hx.1).imp (fun h => ⟨h, hx.2⟩) fun h => ⟨h, hx.2⟩

/-- When the delta's key comes first and is hidden, the visible keys are all after it. -/
lemma visible_past_hidden (hP : Closed s.forward P) (hs : s.Looks env P)
    (hd : s.deltaKey = some d) (hhidden : d ∉ env.visible)
    (hb : ∀ b, s.base = some b → ¬ Ahead s.forward b d) :
    {k | k ∈ env.visible ∧ Ahead s.forward d k} = {k | k ∈ env.visible ∧ P k} := by
  have hmem := looks_of_deltaKey hs hd
  ext k
  refine ⟨fun hk => ⟨hk.1, hP d k hmem.2 hk.2⟩, fun hk => ⟨hk.1, ?_⟩⟩
  have hnot : ¬ Ahead s.forward k d := by
    rcases Setup.mem_or_mem_of_visible hk.1 with h | h
    · exact hs.base.not_ahead_of_mem hb ⟨h, hk.2⟩
    · refine hs.delta.not_ahead_of_mem (fun x hx => ?_) ⟨h, hk.2⟩
      obtain rfl : d = x := some.inj (hd.symm.trans hx)
      exact not_ahead_self
  rcases ahead_trichotomy s.forward d k with h | rfl | h
  · exact h
  · exact absurd hk.1 hhidden
  · exact absurd h hnot

lemma advanceDelta_isNext (hon : p.On env.index) (hp : s.delta = some p) :
    IsNext s.forward {k | k ∈ env.deltaKeys ∧ Ahead s.forward p.key k}
      (s.advanceDelta env).deltaKey := by
  rw [deltaKey, advanceDelta, hp]
  exact moveKey_isNext env.sorted_index hon s.forward

lemma advanceDelta_on (hon : ∀ p, s.delta = some p → p.On env.index) (q : Position K)
    (hq : (s.advanceDelta env).delta = some q) : q.On env.index := by
  obtain ⟨p, hp, hmove⟩ := bind_eq_some_iff.1 hq
  exact moveKey_on env.sorted_index (hon p hp) hmove

lemma advanceBase_isNext (hb : s.base = some b) :
    IsNext s.forward {k | k ∈ env.baseKeys ∧ Ahead s.forward b k} (s.advanceBase env).base := by
  rw [advanceBase, hb]
  refine (scan_isNext env.base.sorted s.forward _).congr (Set.ext fun k => ?_)
  simp only [Set.mem_ofPred_eq, decide_eq_true_eq]
  rfl

/-- The cursors after a hidden key. -/
lemma looks_past_hidden (hP : Closed s.forward P) (hs : s.Looks env P)
    (hd : s.deltaKey = some d) (hb : ∀ b, s.base = some b → ¬ Ahead s.forward b d)
    (hequal : s.equalKeys = true ↔ s.base = some d) :
    (s.skipHidden env).Looks env fun k => Ahead s.forward d k := by
  obtain ⟨p, hp, rfl⟩ := map_eq_some_iff.1 hd
  have hmem := looks_of_deltaKey hs hd
  have hdelta := advanceDelta_isNext (hs.on p hp) hp
  have hon := advanceDelta_on hs.on
  rw [skipHidden]
  split_ifs with he
  · have hbase : (s.advanceDelta env).base = some p.key := hequal.1 he
    exact ⟨advanceBase_isNext hbase, hdelta, hon⟩
  · refine ⟨hs.base.narrow (fun k hk => hP p.key k hmem.2 hk) fun b hbase => ?_, hdelta, hon⟩
    rcases ahead_trichotomy s.forward p.key b with h | rfl | h
    · exact h
    · exact absurd (hequal.2 hbase) he
    · exact absurd h (hb b hbase)

lemma skipHidden_forward : (s.skipHidden env).forward = s.forward := by
  rw [skipHidden]
  split_ifs <;> rfl

lemma skipHidden_status : (s.skipHidden env).status = s.status := by
  rw [skipHidden]
  split_ifs <;> rfl

/-- What is to be shown of a result of `UpdateCurrent`: it is on the next visible key with `P`. -/
def Reaches (env : Setup K) (forward : Bool) (P : K → Prop)
    (r : Option (BaseDeltaIterator K)) : Prop :=
  ∃ s o, r = some s ∧ IsNext forward {k | k ∈ env.visible ∧ P k} o ∧ s.Shows env o

/-- The iterator may stop at a visible key that no cursor is before. -/
lemma Reaches.of_at {s' : BaseDeltaIterator K} (hs : s.Looks env P) (hPc : P c)
    (hat : s'.At env c) (hb : ∀ b, s.base = some b → ¬ Ahead s.forward b c)
    (hd : ∀ d, s.deltaKey = some d → ¬ Ahead s.forward d c) :
    Reaches env s.forward P (some s') := by
  have hvis : c ∈ env.visible := isSome_iff_exists.2 ⟨_, hat.shown⟩
  exact ⟨s', some c, rfl, isNext_visible hs hvis hPc hb hd, hat⟩

lemma reaches_of_both_none (hs : s.Looks env P) (hb : s.base = none) (hd : s.deltaKey = none) :
    Reaches env s.forward P (some s) := by
  have hbase := hs.base
  have hdelta := hs.delta
  rw [hb] at hbase
  rw [hd] at hdelta
  refine ⟨s, none, rfl, isNext_none.2 (Set.eq_empty_of_forall_notMem fun k hk => ?_), ?_⟩
  · rcases Setup.mem_or_mem_of_visible hk.1 with h | h
    · exact hbase.notMem_of_none ⟨h, hk.2⟩
    · exact hdelta.notMem_of_none ⟨h, hk.2⟩
  · simp [Shows, valid, hb, map_eq_none_iff.1 hd]

variable {result : Result} {again : BaseDeltaIterator K → Option (BaseDeltaIterator K)}

section

variable (hP : Closed s.forward P)

include hP

section

variable (hs : Looked env P result s)

include hs

/-- The loop may stop at the base's key if the delta's comes after it. -/
lemma reaches_settleAtBase (hok : s.status = .ok) (hb : s.base = some b)
    (hd : ∀ d, s.deltaKey = some d → Ahead s.forward b d) :
    Reaches env s.forward P (some (s.settleAtBase env)) := by
  refine Reaches.of_at hs.looks (looks_of_base hs.looks hb).2
    (at_settleAtBase hP hs.looks hok hs.equal hb hd) (fun x hx => ?_) fun d h => (hd d h).not_ahead
  obtain rfl : b = x := some.inj (hb.symm.trans hx)
  exact not_ahead_self

/-- When the delta's key comes first, the loop stops at it unless it is hidden. -/
lemma reaches_delta (hok : s.status = .ok)
    (hd : s.deltaKey = some d) (hb : ∀ b, s.base = some b → ¬ Ahead s.forward b d) {equal : Bool}
    (hequal : equal = true ↔ s.base = some d)
    (hagain : ∀ s', s'.forward = s.forward → s'.status = .ok →
      s'.Looks env (fun k => Ahead s.forward d k) →
      Reaches env s.forward (fun k => Ahead s.forward d k) (again s')) : Reaches env s.forward P
      (if hidden result { s with equalKeys := equal } then
        again ({ s with equalKeys := equal }.skipHidden env)
      else some ({ s with equalKeys := equal }.settleAtDelta env)) := by
  obtain ⟨l, p, hf, hp, hcontext, rfl⟩ := hs.found d hd
  have hlooks : { s with equalKeys := equal }.Looks env P :=
    ⟨hs.looks.base, hs.looks.delta, hs.looks.on⟩
  have hhidden : hidden l.result { s with equalKeys := equal } = true ↔ d ∉ env.visible := by
    rw [Setup.notMem_visible_iff hf, hidden]
    simp [hcontext]
  split_ifs with h
  · have hpast := looks_past_hidden (s := { s with equalKeys := equal }) hP hlooks hd hb hequal
    obtain ⟨s', o, hrun, hnext, hshows⟩ := hagain ({ s with equalKeys := equal }.skipHidden env)
      skipHidden_forward (by rw [skipHidden_status]; exact hok) hpast
    refine ⟨s', o, hrun, hnext.congr ?_, hshows⟩
    exact visible_past_hidden hP hs.looks hd (hhidden.1 h) hb
  · have hvis : d ∈ env.visible := not_not.1 (mt hhidden.2 h)
    refine Reaches.of_at hs.looks (looks_of_deltaKey hs.looks hd).2
      (at_settleAtDelta (s := { s with equalKeys := equal }) hP hlooks hok hf hp hcontext hvis
        hequal hb) hb fun x hx => ?_
    obtain rfl : d = x := some.inj (hd.symm.trans hx)
    exact not_ahead_self

/-- A turn of the loop stops at the next visible key or goes on after a hidden one. -/
lemma settle_reaches (hok : s.status = .ok)
    (hagain : ∀ d s', d ∈ env.deltaKeys → P d → s'.forward = s.forward → s'.status = .ok →
      s'.Looks env (fun k => Ahead s.forward d k) →
      Reaches env s.forward (fun k => Ahead s.forward d k) (again s')) :
    Reaches env s.forward P (settle env again result s) := by
  rw [settle]
  cases hd : s.deltaKey with
  | none =>
    cases hb : s.base with
    | none => exact reaches_of_both_none hs.looks hb hd
    | some b =>
      exact reaches_settleAtBase hP hs hok hb fun d h => absurd (hd.symm.trans h) (by simp)
  | some d =>
    have hmem := looks_of_deltaKey hs.looks hd
    cases hb : s.base with
    | none =>
      have hequal : s.equalKeys = true ↔ s.base = some d := by simp [hs.equal, hb]
      have h := reaches_delta hP hs hok hd (fun b h => absurd (hb.symm.trans h) (by simp)) hequal
        (hagain d · hmem.1 hmem.2)
      have hskip : s.skipHidden env = s.advanceDelta env := by
        rw [skipHidden, hs.equal, if_neg Bool.false_ne_true]
      rw [← hskip]
      exact h
    | some b =>
      by_cases hahead : Ahead s.forward b d
      · simp only [if_pos hahead]
        refine reaches_settleAtBase hP hs hok hb fun x hx => ?_
        obtain rfl : d = x := some.inj (hd.symm.trans hx)
        exact hahead
      · have hequal : decide (d = b) = true ↔ s.base = some d := by
          rw [hb, decide_eq_true_eq, some_inj, eq_comm]
        have hfirst : ∀ x, s.base = some x → ¬ Ahead s.forward x d := by
          intro x hx
          obtain rfl : b = x := some.inj (hb.symm.trans hx)
          exact hahead
        have h := reaches_delta hP hs hok hd hfirst hequal (hagain d · hmem.1 hmem.2)
        simp only [hb] at h
        simp only [if_neg hahead, Bool.not_eq_true', ← Bool.not_eq_true, ite_not]
        exact h

end

lemma updateCurrentLoop_reaches {fuel : ℕ} (hs : s.Looks env P)
    (hok : s.status = .ok) (hfuel : {k | k ∈ env.deltaKeys ∧ P k}.ncard < fuel) :
    Reaches env s.forward P (updateCurrentLoop env fuel s) := by
  induction fuel generalizing s P with
  | zero => exact absurd hfuel (Nat.not_lt_zero _)
  | succ fuel ih =>
    obtain ⟨hlooked, hforward, hstatus⟩ := lookAtDelta_looked hs
    rw [updateCurrentLoop, ← hforward]
    refine settle_reaches (by rw [hforward]; exact hP) hlooked (hstatus.trans hok) ?_
    intro d s' hd hPd hforward' hok' hlooks
    rw [hforward] at hforward' hlooks ⊢
    rw [← hforward'] at hlooks ⊢
    refine ih (closed_ahead d) hlooks hok' ?_
    have hlt := ncard_ahead_lt (s := s) hP hd hPd
    rw [hforward']
    omega

lemma updateCurrent_reaches (hs : s.Looks env P) :
    Reaches env s.forward P (updateCurrent env s) := by
  refine updateCurrentLoop_reaches (s := { s with status := .ok, value := [], columns := [] }) hP
    ⟨hs.base, hs.delta, hs.on⟩ rfl (Nat.lt_succ_of_le ?_)
  have hsub : {k | k ∈ env.deltaKeys ∧ P k} ⊆ ↑(keys env.index).toFinset := by
    intro k hk
    exact mem_toFinset.2 hk.1
  calc {k | k ∈ env.deltaKeys ∧ P k}.ncard ≤ (keys env.index).toFinset.card := by
        rw [← Set.ncard_coe_finset]
        exact Set.ncard_le_ncard hsub (Finset.finite_toSet _)
    _ ≤ (keys env.index).length := toFinset_card_le _
    _ = env.index.length := length_map _

end

end Update

/-! ## Next and Prev -/

section Move

variable {K : Type} [LinearOrder K] {env : Setup K} {s : BaseDeltaIterator K} {c : K}

/-- What `Advance` needs: the current cursor is on `c`, and the other one is on `c` too or after
it. -/
structure Ready (env : Setup K) (s : BaseDeltaIterator K) (c : K) : Prop where
  cursors : if s.equalKeys then s.base = some c ∧ s.deltaKey = some c
    else if s.currentAtBase then
      s.base = some c ∧ IsNext s.forward {k | k ∈ env.deltaKeys ∧ Ahead s.forward c k} s.deltaKey
    else
      s.deltaKey = some c ∧ IsNext s.forward {k | k ∈ env.baseKeys ∧ Ahead s.forward c k} s.base
  on : ∀ p, s.delta = some p → p.On env.index

lemma advanceDelta_isNext_of_key (hon : ∀ p, s.delta = some p → p.On env.index)
    (hd : s.deltaKey = some c) : IsNext s.forward {k | k ∈ env.deltaKeys ∧ Ahead s.forward c k}
      (s.advanceDelta env).deltaKey := by
  obtain ⟨p, hp, rfl⟩ := map_eq_some_iff.1 hd
  exact advanceDelta_isNext (hon p hp) hp

lemma advance_reaches (h : s.Ready env c) :
    Reaches env s.forward (fun k => Ahead s.forward c k) (advance env s) := by
  have hcursors := h.cursors
  rw [advance]
  split_ifs at hcursors ⊢ with hequal hbase
  · have hb : IsNext s.forward {k | k ∈ env.baseKeys ∧ Ahead s.forward c k}
        (s.advanceBase env).base := advanceBase_isNext hcursors.1
    have hd := advanceDelta_isNext_of_key (s := s.advanceBase env) h.on hcursors.2
    exact updateCurrent_reaches (s := (s.advanceBase env).advanceDelta env) (closed_ahead c)
      ⟨hb, hd, advanceDelta_on h.on⟩
  · exact updateCurrent_reaches (s := s.advanceBase env) (closed_ahead c)
      ⟨advanceBase_isNext hcursors.1, hcursors.2, h.on⟩
  · exact updateCurrent_reaches (s := s.advanceDelta env) (closed_ahead c)
      ⟨hcursors.2, advanceDelta_isNext_of_key h.on hcursors.1, advanceDelta_on h.on⟩

variable {forward : Bool}

/-- A cursor that is not before `c` and not on it is after it. -/
lemma isNext_ahead_of_ne {S : Set K} {o : Option K}
    (h : IsNext forward {k | k ∈ S ∧ ¬ Ahead forward k c} o) (hne : o ≠ some c) :
    IsNext forward {k | k ∈ S ∧ Ahead forward c k} o := by
  refine h.narrow (fun k hk => hk.not_ahead) fun x hx => ?_
  subst hx
  rcases ahead_trichotomy forward c x with h' | rfl | h'
  · exact h'
  · exact absurd rfl hne
  · exact absurd h' h.mem.2

lemma At.ready (h : s.At env c) : s.Ready env c := by
  refine ⟨?_, h.looks.on⟩
  have hcurrent := h.current
  by_cases hequal : s.equalKeys = true
  · rw [if_pos hequal]
    exact h.equal.1 hequal
  rw [if_neg hequal]
  split_ifs at hcurrent ⊢
  · refine ⟨hcurrent.1, isNext_ahead_of_ne h.looks.delta fun hd => hequal (h.equal.2 ?_)⟩
    exact ⟨hcurrent.1, hd⟩
  · exact ⟨hcurrent, isNext_ahead_of_ne h.looks.base fun hb => hequal (h.equal.2 ⟨hb, hcurrent⟩)⟩

/-- The current cursor is on `c` and the other one after it. -/
def Turned (env : Setup K) (s : BaseDeltaIterator K) (c : K) : Prop :=
  if s.currentAtBase then
    s.base = some c ∧ IsNext s.forward {k | k ∈ env.deltaKeys ∧ Ahead s.forward c k} s.deltaKey
  else s.deltaKey = some c ∧ IsNext s.forward {k | k ∈ env.baseKeys ∧ Ahead s.forward c k} s.base

lemma Turned.ne (h : Turned env s c) : ¬ (s.base ≠ none ∧ s.deltaKey = s.base) := by
  rintro ⟨-, heq⟩
  rw [Turned] at h
  split_ifs at h
  · have hnext := h.2
    rw [heq, h.1] at hnext
    exact not_ahead_self hnext.mem.2
  · have hnext := h.2
    rw [← heq, h.1] at hnext
    exact not_ahead_self hnext.mem.2

lemma seekToEnd_isNext_delta (env : Setup K) (forward : Bool) :
    IsNext forward env.deltaKeys ((seekToEnd forward env.index).map Position.key) := by
  rw [seekToEnd_eq]
  refine (scanIndex_isNext env.sorted_index forward _).congr (Set.ext fun k => ?_)
  simp [Setup.deltaKeys]

lemma seekToEnd_isNext_base (env : Setup K) (forward : Bool) :
    IsNext forward env.baseKeys (env.base.seekToEnd forward) := by
  refine (scan_isNext env.base.sorted forward _).congr (Set.ext fun k => ?_)
  simp [Setup.baseKeys, BaseMap.keys]

section

variable (hon : ∀ p, s.delta = some p → p.On env.index)

include hon

/-- A turn at `c`, where both cursors are at their last keys that are not after `c`. -/
lemma turned_turn (hcurrent : if s.currentAtBase then s.base = some c else s.deltaKey = some c)
    (hbase : IsNext (!s.forward) {k | k ∈ env.baseKeys ∧ ¬ Ahead (!s.forward) k c} s.base)
    (hdelta : IsNext (!s.forward) {k | k ∈ env.deltaKeys ∧ ¬ Ahead (!s.forward) k c} s.deltaKey) :
    Turned env (turn env s.forward s) c := by
  rw [turn]
  by_cases hat : s.currentAtBase = true
  · rw [if_pos hat] at hcurrent
    rw [if_neg (show s.base ≠ none by simp [hcurrent])]
    cases hd : s.deltaKey with
    | none =>
      rw [hd] at hdelta
      rw [if_pos rfl, Turned, if_pos hat]
      exact ⟨hcurrent, (seekToEnd_isNext_delta env s.forward).congr hdelta.turn_none⟩
    | some d =>
      rw [hd] at hdelta
      rw [if_neg (some_ne_none d), if_pos hat, Turned]
      refine (if_pos hat).mpr ⟨hcurrent, ?_⟩
      exact (advanceDelta_isNext_of_key hon hd).congr hdelta.turn
  · rw [if_neg hat] at hcurrent
    cases hb : s.base with
    | none =>
      rw [hb] at hbase
      rw [if_pos rfl, Turned, if_neg hat]
      exact ⟨hcurrent, (seekToEnd_isNext_base env s.forward).congr hbase.turn_none⟩
    | some b =>
      rw [hb] at hbase
      rw [if_neg (some_ne_none b), if_neg (by simp [hcurrent]), if_neg hat, Turned]
      refine (if_neg hat).mpr ⟨hcurrent, ?_⟩
      exact (advanceBase_isNext hb).congr hbase.turn

lemma turn_on (q : Position K) (hq : (turn env forward s).delta = some q) : q.On env.index := by
  rw [turn] at hq
  split_ifs at hq
  · exact hon q hq
  · exact scanIndex_on ((seekToEnd_eq forward).symm.trans hq)
  · exact advanceDelta_on hon q hq
  · exact hon q hq

end

lemma At.changeDirection (h : s.At env c) (hdir : s.forward = !forward) :
    Ready env (changeDirection env forward s) c := by
  have hcurrent : if s.currentAtBase then s.base = some c else s.deltaKey = some c := by
    have hc := h.current
    split_ifs at hc ⊢
    · exact hc.1
    · exact hc
  have hbase := h.looks.base
  have hdelta := h.looks.delta
  rw [hdir] at hbase hdelta
  have hturned : Turned env
      (turn env forward { s with forward := forward, equalKeys := false }) c :=
    turned_turn h.looks.on hcurrent hbase hdelta
  refine ⟨?_, turn_on (s := { s with forward := forward, equalKeys := false }) h.looks.on⟩
  simp only [BaseDeltaIterator.changeDirection, decide_eq_true_eq, if_neg hturned.ne]
  exact hturned

lemma turn_forward (forward : Bool) : (turn env forward s).forward = s.forward := by
  rw [turn]
  split_ifs <;> rfl

lemma changeDirection_forward (forward : Bool) :
    (changeDirection env forward s).forward = forward := turn_forward forward

lemma At.key_eq (h : s.At env c) : s.key = some c := by
  have hcurrent := h.current
  rw [key]
  split_ifs at hcurrent ⊢
  · exact hcurrent.1
  · exact hcurrent

lemma At.valid_eq (h : s.At env c) : s.valid = true := by
  have hkey := h.key_eq
  rw [key] at hkey
  rw [valid, h.status]
  split_ifs at hkey ⊢
  · simp [hkey]
  · obtain ⟨p, hp, -⟩ := map_eq_some_iff.1 hkey
    simp [hp]

/-- `Next` and `Prev` go to the next visible key in their direction, from either direction. -/
lemma move_reaches (h : s.At env c) (forward : Bool) (message : String) :
    Reaches env forward (fun k => Ahead forward c k) (move env forward message s) := by
  rw [move, h.valid_eq, Bool.not_true, if_neg Bool.false_ne_true]
  by_cases hdir : s.forward = forward
  · subst hdir
    rw [if_pos rfl]
    exact advance_reaches h.ready
  · rw [if_neg hdir]
    have hready := h.changeDirection (Bool.eq_not_of_ne hdir)
    have hreach := advance_reaches hready
    rw [changeDirection_forward] at hreach
    exact hreach

end Move

/-! ## All calls -/

section Calls

variable {K : Type} [LinearOrder K] {env : Setup K} {s : BaseDeltaIterator K} {o : Option K}

lemma toEnd_reaches (forward : Bool) :
    Reaches env forward (fun _ => True) (s.toEnd env forward) := by
  refine updateCurrent_reaches (s := { s with
    forward := forward
    base := env.base.seekToEnd forward
    delta := seekToEnd forward env.index }) closed_true ⟨?_, ?_, fun p hp => ?_⟩
  · exact (seekToEnd_isNext_base env forward).congr (by simp)
  · exact (seekToEnd_isNext_delta env forward).congr (by simp)
  · exact scanIndex_on ((seekToEnd_eq forward).symm.trans hp)

lemma toKey_reaches (forward : Bool) (target : K) :
    Reaches env forward (fun k => ¬ Ahead forward k target) (s.toKey env forward target) := by
  refine updateCurrent_reaches (s := { s with
    forward := forward
    base := env.base.seekKey forward target
    delta := seekKey forward env.index target }) (closed_not_ahead target) ⟨?_, ?_, fun p hp => ?_⟩
  · refine (scan_isNext env.base.sorted forward _).congr (Set.ext fun k => ?_)
    simp only [Set.mem_ofPred_eq, decide_eq_true_eq]
    rfl
  · have h := scanIndex_isNext env.sorted_index forward fun x => decide (¬ Ahead forward x target)
    rw [← seekKey_eq] at h
    refine h.congr (Set.ext fun k => ?_)
    simp only [Set.mem_ofPred_eq, decide_eq_true_eq]
    rfl
  · exact scanIndex_on ((seekKey_eq forward).symm.trans hp)

/-- The cursor over the view goes where the iterator goes. -/
lemma Reaches.shows {forward : Bool} {P : K → Prop} [DecidablePred P]
    {r : Option (BaseDeltaIterator K)} (h : Reaches env forward P r) :
    ∃ s, r = some s ∧ s.Shows env (scan forward (fun k => decide (P k)) env.viewKeys) := by
  obtain ⟨s, o, hr, hnext, hshows⟩ := h
  rw [hnext.unique (Setup.scan_viewKeys forward)] at hshows
  exact ⟨s, hr, hshows⟩

lemma prepareValue_prepareValue : (s.prepareValue env).prepareValue env = s.prepareValue env := by
  by_cases ha : env.allowUnpreparedValue = true
  · by_cases hat : s.currentAtBase = true
    · obtain ⟨b, hb⟩ : ∃ b, s.base = b := ⟨_, rfl⟩
      cases b <;> simp [prepareValue, setValueAndColumnsFromBase, ha, hat, hb, setShown]
    · simp [prepareValue, ha, hat]
  · simp [prepareValue, ha]

/-- Preparing the value changes nothing but what is shown. -/
lemma prepareValue_eq (env : Setup K) (s : BaseDeltaIterator K) : ∃ value columns,
    s.prepareValue env = { s with value := value, columns := columns } := by
  rw [prepareValue]
  split_ifs
  · exact ⟨s.value, s.columns, rfl⟩
  · exact ⟨s.value, s.columns, rfl⟩
  · exact setValueAndColumnsFromBase_eq env s

lemma Shows.prepareValue (h : s.Shows env o) : (s.prepareValue env).Shows env o := by
  obtain ⟨value, columns, heq⟩ := prepareValue_eq env s
  cases o with
  | none =>
    rw [heq]
    exact h
  | some c =>
    have hshown := h.shown
    rw [← prepareValue_prepareValue] at hshown
    rw [heq] at hshown ⊢
    exact ⟨h.status, ⟨h.looks.base, h.looks.delta, h.looks.on⟩, h.current, h.equal, hshown⟩

/-- On an invalid iterator, `Next` and `Prev` only set the status. -/
lemma move_of_invalid (h : s.valid = false) (forward : Bool) (message : String) :
    ∃ s', move env forward message s = some s' ∧ s'.Shows env none := by
  refine ⟨{ s with status := .notSupported message }, by rw [move, h]; rfl, ?_⟩
  simp [Shows, valid]

/-- `Next` and `Prev` take the iterator where they take the cursor. -/
lemma move_shows (h : s.Shows env o) (forward : Bool) (message : String) :
    ∃ s', move env forward message s = some s' ∧ s'.Shows env
      (o.bind fun c => scan forward (fun k => decide (Ahead forward c k)) env.viewKeys) := by
  cases o with
  | none => exact move_of_invalid h forward message
  | some c => exact (move_reaches h forward message).shows

/-- Every call takes the iterator where it takes the cursor. -/
lemma step_shows (h : s.Shows env o) (op : ReadOp K) :
    ∃ s', s.step env op = some s' ∧ s'.Shows env (cursorStep env.viewKeys o op) := by
  cases op with
  | seekToFirst =>
    have hview : env.viewKeys.head? = scan true (fun _ => decide True) env.viewKeys := by
      cases env.viewKeys <;> rfl
    rw [cursorStep, hview]
    exact (toEnd_reaches true).shows
  | seekToLast =>
    have hview : env.viewKeys.getLast? = scan false (fun _ => decide True) env.viewKeys := by
      rw [← head?_reverse]
      cases h' : env.viewKeys.reverse <;> simp [scan, h']
    rw [cursorStep, hview]
    exact (toEnd_reaches false).shows
  | seek target =>
    have hview : (env.viewKeys.find? fun k => decide (target ≤ k)) =
        scan true (fun k => decide (¬ Ahead true k target)) env.viewKeys := by
      simp [scan, Ahead]
    rw [cursorStep, hview]
    exact (toKey_reaches true target).shows
  | seekForPrev target =>
    have hview : (env.viewKeys.reverse.find? fun k => decide (k ≤ target)) =
        scan false (fun k => decide (¬ Ahead false k target)) env.viewKeys := by
      simp [scan, Ahead]
    rw [cursorStep, hview]
    exact (toKey_reaches false target).shows
  | next => exact move_shows h true _
  | prev => exact move_shows h false _
  | prepareValue => exact ⟨_, rfl, h.prepareValue⟩

lemma run_shows (ops : List (ReadOp K)) (h : s.Shows env o) :
    ∃ s', ops.foldlM (step env) s = some s' ∧
      s'.Shows env (ops.foldl (cursorStep env.viewKeys) o) := by
  induction ops generalizing s o with
  | nil => exact ⟨s, rfl, h⟩
  | cons op ops ih =>
    obtain ⟨s₁, hs₁, h₁⟩ := step_shows h op
    obtain ⟨s₂, hs₂, h₂⟩ := ih h₁
    refine ⟨s₂, ?_, h₂⟩
    rw [foldlM_cons, hs₁]
    exact hs₂

lemma observe_eq (h : s.Shows env o) :
    s.observe env = o.bind fun k => (env.merged k).map fun shown => (k, shown) := by
  cases o with
  | none =>
    have hvalid : s.valid = false := h
    simp [observe, hvalid]
  | some c => simp [observe, h.valid_eq, h.key_eq, h.shown]

end Calls

end BaseDeltaIterator

end BucketLSM.WriteBatchWithIndex
