import Mathlib
import BucketLSM.Format

/-!
# Atomic groups in the manifest

`VersionEditHandlerBase::Iterate` (`db/version_edit_handler.cc`) reads the edits of a manifest
and applies them. The edits of an atomic group carry the number of edits that are still to come
in the group; they are collected in an `AtomicGroupReadBuffer` (`db/version_set.cc`) and applied
together with the last one.
-/

namespace BucketLSM.Manifest

open List

/-- An edit of the manifest, with `remaining_entries_` if it is in an atomic group. -/
structure LogEdit (E : Type) where
  body : E
  remainingEntries : Option UInt32
deriving DecidableEq

/-- A default-constructed edit. -/
instance {E : Type} [Inhabited E] : Inhabited (LogEdit E) := ⟨⟨default, none⟩⟩

variable {E : Type}

/-- The mark of the edit as a number. -/
def LogEdit.count (e : LogEdit E) : Option ℕ := e.remainingEntries.map UInt32.toNat

/-! ## The buffer -/

/-- `AtomicGroupReadBuffer`. The buffer has a slot for every edit of the group. -/
structure AtomicGroupReadBuffer (E : Type) where
  readEdits : ℕ := 0
  replayBuffer : List (LogEdit E) := []
deriving DecidableEq

namespace AtomicGroupReadBuffer

variable [Inhabited E]

/-- `AtomicGroupReadBuffer::AddEdit`. The size of the group is computed in 32 bits. -/
def addEdit (b : AtomicGroupReadBuffer E) (e : LogEdit E) : Status × AtomicGroupReadBuffer E :=
  match e.remainingEntries with
  | some remaining =>
    let slots := if b.replayBuffer = [] then replicate (remaining + 1).toNat default
      else b.replayBuffer
    let read := b.readEdits + 1
    if read + remaining.toNat ≠ slots.length % 2 ^ 32 then (.corruption, ⟨read, slots⟩)
    else (.ok, ⟨read, slots.set (read - 1) e⟩)
  | none => if b.replayBuffer ≠ [] then (.corruption, b) else (.ok, b)

/-- `AtomicGroupReadBuffer::IsFull`. -/
def isFull (b : AtomicGroupReadBuffer E) : Bool := b.readEdits = b.replayBuffer.length

end AtomicGroupReadBuffer

/-! ## The loop -/

/-- The virtual functions of a handler, on the state it keeps. -/
structure Handler (E S : Type) where
  applyVersionEdit : LogEdit E → S → Status × S
  onAtomicGroupReplayBegin : S → Status × S := fun s => (.ok, s)
  onAtomicGroupReplayEnd : S → Status × S := fun s => (.ok, s)

open Handler

namespace Handler

variable {S : Type} (H : Handler E S)

/-- Edits are applied until one fails. -/
def replay : List (LogEdit E) → S → Status × S
  | [], s => (.ok, s)
  | e :: es, s =>
    match H.applyVersionEdit e s with
    | (.ok, s) => replay es s
    | failed => failed

/-- A full buffer is replayed between the two hooks. -/
def replayGroup (group : List (LogEdit E)) (s : S) : Status × S :=
  match H.onAtomicGroupReplayBegin s with
  | (.ok, s) =>
    match H.replay group s with
    | (.ok, s) => H.onAtomicGroupReplayEnd s
    | failed => failed
  | failed => failed

variable [Inhabited E]

/-- The body of the loop in `Iterate` on an edit the buffer has taken. -/
def handleEdit (b : AtomicGroupReadBuffer E) (e : LogEdit E) (s : S) :
    Status × AtomicGroupReadBuffer E × S :=
  match e.remainingEntries with
  | some _ =>
    if b.isFull then
      match H.replayGroup b.replayBuffer s with
      | (.ok, s) => (.ok, {}, s)
      | (failed, s) => (failed, b, s)
    else (.ok, b, s)
  | none => ((H.applyVersionEdit e s).1, b, (H.applyVersionEdit e s).2)

/-- The loop of `VersionEditHandlerBase::Iterate` over the records it reads. -/
def iterate : List (LogEdit E) → AtomicGroupReadBuffer E → S → Status × AtomicGroupReadBuffer E × S
  | [], b, s => (.ok, b, s)
  | e :: es, b, s =>
    match b.addEdit e with
    | (.ok, b) =>
      match H.handleEdit b e s with
      | (.ok, b, s) => iterate es b s
      | failed => failed
    | (failed, b) => (failed, b, s)

/-- A handler whose edits all apply, and that keeps their list. -/
def recorder : Handler E (List (LogEdit E)) where
  applyVersionEdit e s := (.ok, s ++ [e])

end Handler

/-! ## What a manifest is made of -/

/-- The edits count down from `n`, at most to zero. -/
def Descends : ℕ → List (LogEdit E) → Prop
  | _, [] => True
  | 0, e :: es => e.count = some 0 ∧ es = []
  | n + 1, e :: es => e.count = some (n + 1) ∧ Descends n es

@[simp]
lemma descends_nil (n : ℕ) : Descends n ([] : List (LogEdit E)) := by
  cases n <;> trivial

/-- The edits of a complete group: they count down to zero. -/
def IsGroup (group : List (LogEdit E)) : Prop :=
  ∃ n, Descends n group ∧ group.length = n + 1

/-- Single edits and complete groups. -/
inductive WellFormed : List (LogEdit E) → Prop
  | nil : WellFormed []
  | single {e : LogEdit E} {es : List (LogEdit E)} (mark : e.remainingEntries = none)
      (rest : WellFormed es) : WellFormed (e :: es)
  | group {group es : List (LogEdit E)} (complete : IsGroup group) (rest : WellFormed es) :
      WellFormed (group ++ es)

/-- The beginning of a group of `n + 1` edits that is not complete. -/
structure Begins (n : ℕ) (group : List (LogEdit E)) : Prop where
  nonempty : group ≠ []
  descends : Descends n group
  short : group.length ≤ n

/-- A single edit or a wrong count stands inside a group. -/
def Broken (edits : List (LogEdit E)) : Prop :=
  ∃ done n group e rest, edits = done ++ group ++ e :: rest ∧ WellFormed done ∧
    Begins n group ∧ e.count ≠ some (n - group.length)

/-- The longest front of the edits that is made of single edits and complete groups. -/
structure LongestWellFormed (done edits : List (LogEdit E)) : Prop where
  front : done <+: edits
  wellFormed : WellFormed done
  longest : ∀ q, q <+: edits → WellFormed q → q.length ≤ done.length

/-! ## Where a reader stands

The three ways a manifest can end exclude each other: a reader that only counts is between two
groups, inside a group, or has seen that the group is broken. -/

/-- Where a reader stands; inside a group, with the count that has to come next. -/
inductive Progress
  | between
  | within (next : ℕ)
  | broken
deriving DecidableEq

namespace Progress

/-- The next place of a reader that expects the count `next`. -/
def expect : ℕ → Progress
  | 0 => between
  | next + 1 => within next

/-- One edit. -/
def step : Progress → LogEdit E → Progress
  | between, e =>
    match e.count with
    | none => between
    | some n => expect n
  | within next, e => if e.count = some next then expect next else broken
  | broken, _ => broken

/-- Where the reader is after the edits. -/
def after (edits : List (LogEdit E)) : Progress := edits.foldl step between

lemma foldl_step_broken (edits : List (LogEdit E)) : edits.foldl step broken = broken := by
  induction edits with
  | nil => rfl
  | cons e es ih => exact ih

variable {group : List (LogEdit E)} {n : ℕ}

/-- Inside a group whose next count is `n`, the reader follows the edits down. -/
lemma foldl_step_within (h : Descends n group) : group.foldl step (within n) =
      if group.length = n + 1 then between else within (n - group.length) := by
  induction group generalizing n with
  | nil => simp
  | cons e es ih =>
    cases n with
    | zero =>
      obtain ⟨hcount, rfl⟩ := h
      simp [step, hcount, expect]
    | succ n =>
      obtain ⟨hcount, hrest⟩ := h
      simp only [foldl_cons, step, hcount, if_true, expect, ih hrest, length_cons]
      by_cases hlen : es.length = n + 1
      · simp [hlen]
      · rw [if_neg hlen, if_neg (by omega)]
        congr 1
        omega

lemma step_between_of_count {e : LogEdit E} (h : e.count = some n) :
    step between e = step (within n) e := by
  simp [step, h]

lemma foldl_step_between (h : Descends n group) (nonempty : group ≠ []) :
    group.foldl step between = group.foldl step (within n) := by
  cases group with
  | nil => exact absurd rfl nonempty
  | cons e es =>
    have hcount : e.count = some n := by
      cases n with
      | zero => exact h.1
      | succ n => exact h.1
    rw [foldl_cons, foldl_cons, step_between_of_count hcount]

lemma foldl_step_group (h : IsGroup group) : group.foldl step between = between := by
  obtain ⟨n, hdown, hlen⟩ := h
  have nonempty : group ≠ [] := by
    rintro rfl
    simp at hlen
  rw [foldl_step_between hdown nonempty, foldl_step_within hdown, if_pos hlen]

lemma foldl_step_begins (h : Begins n group) :
    group.foldl step between = within (n - group.length) := by
  have hshort := h.short
  rw [foldl_step_between h.descends h.nonempty, foldl_step_within h.descends, if_neg (by omega)]

lemma after_wellFormed {edits : List (LogEdit E)} (h : WellFormed edits) :
    after edits = between := by
  induction h with
  | nil => rfl
  | single mark _ ih =>
    simp only [after, foldl_cons, step, LogEdit.count, mark, Option.map_none]
    exact ih
  | group complete _ ih =>
    rw [after, foldl_append, foldl_step_group complete]
    exact ih

lemma after_begins {done : List (LogEdit E)} (hdone : WellFormed done) (h : Begins n group) :
    after (done ++ group) = within (n - group.length) := by
  rw [after, foldl_append]
  change group.foldl step (after done) = _
  rw [after_wellFormed hdone, foldl_step_begins h]

lemma after_broken {edits : List (LogEdit E)} (h : Broken edits) : after edits = broken := by
  obtain ⟨done, n, group, e, rest, rfl, hdone, hgroup, hcount⟩ := h
  rw [after, foldl_append]
  change (e :: rest).foldl step (after (done ++ group)) = _
  rw [after_begins hdone hgroup, foldl_cons]
  simp only [step, if_neg hcount, foldl_step_broken]

end Progress

variable {group rest done edits : List (LogEdit E)} {n : ℕ} {e : LogEdit E}

lemma Descends.length_le (h : Descends n group) : group.length ≤ n + 1 := by
  induction group generalizing n with
  | nil => simp
  | cons e es ih =>
    cases n with
    | zero => simp [h.2]
    | succ n =>
      have := ih h.2
      rw [length_cons]
      omega

lemma Descends.of_append (h : Descends n (group ++ rest)) : Descends n group := by
  induction group generalizing n with
  | nil => exact descends_nil n
  | cons e es ih =>
    cases n with
    | zero => exact ⟨h.1, (append_eq_nil_iff.1 h.2).1⟩
    | succ n => exact ⟨h.1, ih h.2⟩

lemma Descends.append_singleton (h : Descends n group) (hlen : group.length ≤ n)
    (hcount : e.count = some (n - group.length)) : Descends n (group ++ [e]) := by
  induction group generalizing n with
  | nil =>
    cases n with
    | zero => exact ⟨hcount, rfl⟩
    | succ n => exact ⟨hcount, descends_nil n⟩
  | cons x xs ih =>
    cases n with
    | zero => simp at hlen
    | succ n =>
      rw [length_cons] at hlen hcount
      exact ⟨h.1, ih h.2 (by omega) (by rw [hcount]; congr 1; omega)⟩

lemma Descends.count_last (h : Descends n (group ++ [e])) : e.count = some (n - group.length) := by
  induction group generalizing n with
  | nil =>
    cases n with
    | zero => exact h.1
    | succ n => exact h.1
  | cons x xs ih =>
    cases n with
    | zero => exact absurd h.2 (by simp)
    | succ n =>
      rw [ih h.2, length_cons]
      congr 1
      omega

lemma WellFormed.append (h : WellFormed done) (h' : WellFormed edits) :
    WellFormed (done ++ edits) := by
  induction h with
  | nil => exact h'
  | single mark _ ih => exact .single mark ih
  | @group group es complete _ ih =>
    rw [append_assoc]
    exact .group complete ih

lemma IsGroup.wellFormed (h : IsGroup group) : WellFormed group := by
  rw [← append_nil group]
  exact .group h .nil

/-- Every manifest is complete, ends inside a group, or is broken. -/
lemma exists_classified (edits : List (LogEdit E)) :
    WellFormed edits ∨ (∃ done n group, edits = done ++ group ∧ WellFormed done ∧
      Begins n group) ∨ Broken edits := by
  induction edits using reverseRecOn with
  | nil => exact .inl .nil
  | append_singleton edits e ih =>
    rcases ih with hdone | ⟨done, n, group, rfl, hdone, hgroup⟩ | hbroken
    · cases hcount : e.remainingEntries with
      | none => exact .inl (hdone.append (.single hcount .nil))
      | some remaining =>
        have hmark : e.count = some remaining.toNat := by rw [LogEdit.count, hcount]; rfl
        cases hn : remaining.toNat with
        | zero =>
          rw [hn] at hmark
          have hsingle : IsGroup [e] := ⟨0, ⟨hmark, rfl⟩, rfl⟩
          exact .inl (hdone.append (hsingle.wellFormed))
        | succ n =>
          rw [hn] at hmark
          exact .inr (.inl ⟨edits, n + 1, [e], rfl, hdone, by simp, ⟨hmark, descends_nil n⟩,
            by simp⟩)
    · by_cases hcount : e.count = some (n - group.length)
      · have hdown := hgroup.descends.append_singleton hgroup.short hcount
        have hshort := hgroup.short
        by_cases hlen : group.length = n
        · have hgroup : IsGroup (group ++ [e]) := ⟨n, hdown, by simp [hlen]⟩
          rw [append_assoc]
          exact .inl (hdone.append hgroup.wellFormed)
        · exact .inr (.inl ⟨done, n, group ++ [e], by simp, hdone, by simp, hdown, by
            simp only [length_append, length_singleton]; omega⟩)
      · exact .inr (.inr ⟨done, n, group, e, [], rfl, hdone, hgroup, hcount⟩)
    · obtain ⟨done, n, group, x, rest, rfl, hdone, hgroup, hcount⟩ := hbroken
      exact .inr (.inr ⟨done, n, group, x, rest ++ [e], by simp, hdone, hgroup, hcount⟩)

lemma Begins.of_append (h : Begins n (group ++ rest)) (nonempty : group ≠ []) : Begins n group := by
  have hshort := h.short
  rw [length_append] at hshort
  exact ⟨nonempty, h.descends.of_append, by omega⟩

/-- No front that is longer than the complete edits before a group that is cut off, and ends
inside of it, is complete. -/
lemma not_wellFormed_begins (hdone : WellFormed done) (h : Begins n group) :
    ¬ WellFormed (done ++ group) := by
  intro hwf
  have hbetween := Progress.after_wellFormed hwf
  rw [Progress.after_begins hdone h] at hbetween
  exact absurd hbetween (by simp)

lemma Broken.not_wellFormed (h : Broken edits) : ¬ WellFormed edits := by
  intro hwf
  have hbetween := Progress.after_wellFormed hwf
  rw [Progress.after_broken h] at hbetween
  exact absurd hbetween (by simp)

lemma not_broken_begins (hdone : WellFormed done) (h : Begins n group) :
    ¬ Broken (done ++ group) := by
  intro hbroken
  have hafter := Progress.after_broken hbroken
  rw [Progress.after_begins hdone h] at hafter
  exact absurd hafter (by simp)

/-- A longer front goes on into what follows. -/
lemma exists_append_of_longer {q : List (LogEdit E)} (hq : q <+: done ++ rest)
    (hlong : done.length < q.length) : ∃ more, more ≠ [] ∧ q = done ++ more ∧ more <+: rest := by
  obtain ⟨back, hback⟩ := hq
  have hfront : q = done ++ q.drop done.length := by
    have htake := congrArg (take done.length) hback
    rw [take_append_of_le_length hlong.le, take_left] at htake
    nth_rewrite 1 [← take_append_drop done.length q]
    rw [htake]
  refine ⟨q.drop done.length, ?_, hfront, back, ?_⟩
  · intro hnil
    have := drop_eq_nil_iff.1 hnil
    omega
  · rw [hfront, append_assoc] at hback
    exact append_cancel_left hback

lemma longestWellFormed_of_begins (hdone : WellFormed done) (h : Begins n group) :
    LongestWellFormed done (done ++ group) := by
  refine ⟨prefix_append _ _, hdone, fun q hq hwf => ?_⟩
  by_contra hlong
  obtain ⟨more, hne, rfl, back, hback⟩ := exists_append_of_longer hq (by omega)
  rw [← hback] at h
  exact not_wellFormed_begins hdone (h.of_append hne) hwf

lemma longestWellFormed_of_broken (hdone : WellFormed done) (h : Begins n group)
    (hcount : e.count ≠ some (n - group.length)) (rest : List (LogEdit E)) :
    LongestWellFormed done (done ++ group ++ e :: rest) := by
  rw [append_assoc]
  refine ⟨prefix_append _ _, hdone, fun q hq hwf => ?_⟩
  by_contra hlong
  obtain ⟨more, hne, rfl, hmore⟩ := exists_append_of_longer hq (by omega)
  -- the longer front ends inside the group, or has the edit that breaks it
  rcases Nat.lt_or_ge group.length more.length with hlt | hge
  · obtain ⟨last, hlast, rfl, hrest⟩ := exists_append_of_longer hmore hlt
    cases last with
    | nil => exact hlast rfl
    | cons x last =>
      obtain ⟨rfl, -⟩ := cons_prefix_cons.1 hrest
      exact Broken.not_wellFormed ⟨done, n, group, x, last, by simp, hdone, h, hcount⟩ hwf
  · obtain ⟨back, rfl⟩ := prefix_of_prefix_length_le hmore (prefix_append _ _) hge
    exact not_wellFormed_begins hdone (h.of_append hne) hwf

lemma longestWellFormed_self (h : WellFormed edits) : LongestWellFormed edits edits :=
  ⟨prefix_rfl, h, fun _ hq _ => hq.length_le⟩

/-! ## Groups of 2^32 edits -/

lemma exists_of_count (h : e.count = some n) :
    ∃ remaining, e.remainingEntries = some remaining ∧ remaining.toNat = n :=
  Option.map_eq_some_iff.1 h

/-- The edits have no group of 2^32 edits among them. -/
def Small (edits : List (LogEdit E)) : Prop := ∀ e ∈ edits, e.count ≠ some (2 ^ 32 - 1)

lemma count_le (h : e.count = some n) : n ≤ 2 ^ 32 - 1 := by
  obtain ⟨remaining, -, rfl⟩ := exists_of_count h
  have := remaining.toNat_lt
  omega

lemma Descends.le_of_mem {m : ℕ} (h : Descends n group) (he : e ∈ group)
    (hcount : e.count = some m) : m ≤ n := by
  induction group generalizing n with
  | nil => simp at he
  | cons x xs ih =>
    cases n with
    | zero =>
      obtain ⟨hx, rfl⟩ := h
      rw [mem_singleton] at he
      rw [he, hx] at hcount
      cases hcount
      exact le_rfl
    | succ n =>
      rcases mem_cons.1 he with rfl | he
      · rw [h.1] at hcount
        cases hcount
        exact le_rfl
      · have := ih h.2 he
        omega

lemma Descends.count_head (h : Descends n (e :: group)) : e.count = some n := by
  cases n with
  | zero => exact h.1
  | succ n => exact h.1

/-- A group of 2^32 edits is complete, or it is cut off by the end of the manifest, and no such
group comes before it. -/
def Oversized (edits : List (LogEdit E)) : Prop :=
  ∃ done group rest, edits = done ++ group ++ rest ∧ WellFormed done ∧ Small done ∧
    group ≠ [] ∧ Descends (2 ^ 32 - 1) group ∧ (rest = [] ∨ group.length = 2 ^ 32)

/-- In complete edits a group of 2^32 edits is complete. -/
lemma small_or_oversized (h : WellFormed done) : Small done ∨ ∀ rest, Oversized (done ++ rest) := by
  induction h with
  | nil => exact .inl (by simp [Small])
  | @single e es mark _ ih =>
    rcases ih with hsmall | hover
    · refine .inl fun x hx => ?_
      rcases mem_cons.1 hx with rfl | hx
      · simp [LogEdit.count, mark]
      · exact hsmall x hx
    · refine .inr fun rest => ?_
      obtain ⟨done, group, rest', heq, hdone, hsmall, hgroup⟩ := hover rest
      refine ⟨e :: done, group, rest', by simp [heq], .single mark hdone, fun x hx => ?_, hgroup⟩
      rcases mem_cons.1 hx with rfl | hx
      · simp [LogEdit.count, mark]
      · exact hsmall x hx
  | @group group es complete _ ih =>
    obtain ⟨n, hdown, hlen⟩ := complete
    have hne : group ≠ [] := by
      rintro rfl
      simp at hlen
    by_cases hn : n = 2 ^ 32 - 1
    · subst hn
      exact .inr fun rest => ⟨[], group, es ++ rest, by simp, .nil, by simp [Small], hne, hdown,
        .inr (by omega)⟩
    · have hle : n ≤ 2 ^ 32 - 1 := by
        cases group with
        | nil => exact absurd rfl hne
        | cons e group => exact count_le hdown.count_head
      have hgroup : Small group := by
        intro x hx hcount
        have := hdown.le_of_mem hx hcount
        omega
      rcases ih with hsmall | hover
      · refine .inl fun x hx => ?_
        rcases mem_append.1 hx with hx | hx
        · exact hgroup x hx
        · exact hsmall x hx
      · refine .inr fun rest => ?_
        obtain ⟨done, group', rest', heq, hdone, hsmall, hgroup'⟩ := hover rest
        refine ⟨group ++ done, group', rest', by simp [heq], .group ⟨n, hdown, hlen⟩ hdone,
          fun x hx => ?_, hgroup'⟩
        rcases mem_append.1 hx with hx | hx
        · exact hgroup x hx
        · exact hsmall x hx

/-! ## What the loop does -/

lemma replay_recorder (edits applied : List (LogEdit E)) :
    (recorder (E := E)).replay edits applied = (.ok, applied ++ edits) := by
  induction edits generalizing applied with
  | nil => simp [replay]
  | cons e es ih =>
    have hrest := ih (applied ++ [e])
    rw [append_assoc] at hrest
    exact hrest

lemma replayGroup_recorder (group applied : List (LogEdit E)) :
    (recorder (E := E)).replayGroup group applied = (.ok, applied ++ group) := by
  have hbegin : (recorder (E := E)).onAtomicGroupReplayBegin applied = (.ok, applied) := rfl
  simp only [replayGroup, hbegin, replay_recorder]
  rfl

section Loop

variable [Inhabited E]

/-- The buffer after the edits of a group of `n + 1` edits. -/
def filled (n : ℕ) (group : List (LogEdit E)) : AtomicGroupReadBuffer E :=
  if group = [] then {}
  else ⟨group.length, group ++ replicate (n + 1 - group.length) default⟩

variable {e : LogEdit E} {group applied rest done edits : List (LogEdit E)} {n : ℕ} {S : Type}
  {b' : AtomicGroupReadBuffer E}

open AtomicGroupReadBuffer

lemma addEdit_filled (hn : n + 1 < 2 ^ 32) (hlen : group.length ≤ n)
    (hcount : e.count = some (n - group.length)) :
    (filled n group).addEdit e = (.ok, filled n (group ++ [e])) := by
  obtain ⟨remaining, hsome, hnat⟩ := exists_of_count hcount
  have hfilled : filled n (group ++ [e]) =
      ⟨group.length + 1, group ++ e :: replicate (n - group.length) default⟩ := by
    simp [filled]
  by_cases hnil : group = []
  · subst hnil
    have hslots : (remaining + 1).toNat = n + 1 := by
      rw [UInt32.toNat_add, hnat]
      simp only [length_nil, Nat.sub_zero, UInt32.toNat_one]
      omega
    rw [hfilled]
    simp only [addEdit, filled, hsome, if_true, hslots, hnat,
      length_replicate, length_nil, Nat.sub_zero, nil_append]
    rw [if_neg (by omega)]
    simp [replicate_succ]
  · have hslots : (group ++ replicate (n + 1 - group.length) (default : LogEdit E)).length =
        n + 1 := by
      rw [length_append, length_replicate]
      omega
    have hset : (group ++ replicate (n + 1 - group.length) (default : LogEdit E)).set
        group.length e = group ++ e :: replicate (n - group.length) default := by
      rw [set_append_right _ _ le_rfl, Nat.sub_self, Nat.sub_add_comm hlen,
        replicate_succ, set_cons_zero]
    rw [hfilled]
    have hne : ¬ (group ++ replicate (n + 1 - group.length) (default : LogEdit E) = []) := by
      simp [hnil]
    simp only [addEdit, filled, hsome, if_neg hnil, hnat, if_neg hne]
    rw [hslots, if_neg (by omega), Nat.add_sub_cancel, hset]

lemma isFull_filled (nonempty : group ≠ []) (hlen : group.length ≤ n + 1) :
    (filled n group).isFull = decide (group.length = n + 1) := by
  simp only [isFull, filled, if_neg nonempty, length_append, length_replicate]
  congr 1
  exact propext ⟨fun h => by omega, fun h => by omega⟩

/-- A single edit or a wrong count inside a group is refused. -/
lemma addEdit_broken (hn : n + 1 < 2 ^ 32) (h : Begins n group)
    (hcount : e.count ≠ some (n - group.length)) :
    ((filled n group).addEdit e).1 = .corruption := by
  have hshort := h.short
  have hslots : (group ++ replicate (n + 1 - group.length) (default : LogEdit E)).length =
      n + 1 := by
    rw [length_append, length_replicate]
    omega
  have hbuffer : ¬ (group ++ replicate (n + 1 - group.length) (default : LogEdit E) = []) := by
    simp [h.nonempty]
  cases hmark : e.remainingEntries with
  | none =>
    simp only [addEdit, filled, hmark, if_neg h.nonempty]
    rw [if_pos hbuffer]
  | some remaining =>
    have hne : remaining.toNat ≠ n - group.length := by
      intro heq
      exact hcount (by rw [LogEdit.count, hmark, Option.map_some, heq])
    simp only [addEdit, filled, hmark, if_neg h.nonempty, if_neg hbuffer]
    rw [hslots, if_pos (by omega)]

/-- The number of edits in a group of 2^32 wraps to zero, and its first edit is refused. -/
lemma addEdit_oversized (hcount : e.count = some (2 ^ 32 - 1)) :
    (({} : AtomicGroupReadBuffer E).addEdit e).1 = .corruption := by
  obtain ⟨remaining, hsome, hnat⟩ := exists_of_count hcount
  have hslots : (remaining + 1).toNat = 0 := by
    rw [UInt32.toNat_add, hnat]
    simp
  simp only [addEdit, hsome, if_true, hslots, hnat, length_replicate]
  rw [if_pos (by omega)]

lemma iterate_single (mark : e.remainingEntries = none) :
    Handler.recorder.iterate (e :: rest) {} applied =
      Handler.recorder.iterate rest {} (applied ++ [e]) := by
  simp [Handler.iterate, addEdit, Handler.handleEdit, mark, Handler.recorder]

/-- The edits of a group that is not complete yet are taken into the buffer. -/
lemma iterate_begins {H : Handler E S} {s : S} {more : List (LogEdit E)}
    (group : List (LogEdit E)) (hn : n + 1 < 2 ^ 32) (h : Descends n (group ++ more))
    (hlen : (group ++ more).length ≤ n) :
    H.iterate (more ++ rest) (filled n group) s = H.iterate rest (filled n (group ++ more)) s := by
  induction more generalizing group with
  | nil => simp
  | cons e es ih =>
    rw [append_cons] at h hlen ⊢
    rw [length_append, length_append, length_singleton] at hlen
    have hcount : e.count = some (n - group.length) := h.of_append.count_last
    obtain ⟨remaining, hsome, -⟩ := exists_of_count hcount
    have hfull : (filled n (group ++ [e])).isFull = false := by
      rw [isFull_filled (by simp) (by simp; omega)]
      simp only [length_append, length_singleton, decide_eq_false_iff_not]
      omega
    rw [← ih _ h (by simp; omega), cons_append, Handler.iterate,
      addEdit_filled hn (by omega) hcount]
    simp [Handler.handleEdit, hsome, hfull]

section

variable (hn : n + 1 < 2 ^ 32) (h : Descends n group) (hlen : group.length = n + 1)

include hn h hlen

/-- A complete group is full in the buffer with its last edit. -/
lemma iterate_last {H : Handler E S} {s : S} :
    ∃ front last remaining, group = front ++ [last] ∧ last.remainingEntries = some remaining ∧
      H.iterate (group ++ rest) {} s = H.iterate (last :: rest) (filled n front) s ∧
      (filled n front).addEdit last = (.ok, filled n group) ∧
      (filled n group).isFull = true ∧ (filled n group).replayBuffer = group := by
  obtain ⟨front, last, rfl⟩ : ∃ front last, group = front ++ [last] := by
    rcases eq_nil_or_concat group with rfl | ⟨front, last, hgroup⟩
    · simp at hlen
    · exact ⟨front, last, by rw [hgroup, concat_eq_append]⟩
  rw [length_append, length_singleton] at hlen
  have hcount := h.count_last
  obtain ⟨remaining, hsome, -⟩ := exists_of_count hcount
  have hbegin : H.iterate (front ++ (last :: rest)) (filled n []) s =
      H.iterate (last :: rest) (filled n front) s :=
    iterate_begins [] hn h.of_append (by simp; omega)
  refine ⟨front, last, remaining, rfl, hsome, ?_, addEdit_filled hn (by omega) hcount, ?_, ?_⟩
  · rw [append_assoc, singleton_append]
    exact hbegin
  · rw [isFull_filled (by simp) (by simp; omega)]
    simp only [length_append, length_singleton, decide_eq_true_eq]
    omega
  · simp [filled, hlen]

lemma iterate_group : Handler.recorder.iterate (group ++ rest) {} applied =
      Handler.recorder.iterate rest {} (applied ++ group) := by
  obtain ⟨front, last, remaining, -, hsome, hiterate, hadd, hfull, hbuffer⟩ :=
    iterate_last hn h hlen
  rw [hiterate, Handler.iterate, hadd]
  simp only [Handler.handleEdit, hsome, hfull, if_true, replayGroup_recorder, hbuffer]

end

lemma iterate_wellFormed (h : WellFormed done) (small : Small done) (rest : List (LogEdit E)) :
    recorder.iterate (done ++ rest) {} applied = recorder.iterate rest {} (applied ++ done) := by
  induction h generalizing applied with
  | nil => simp
  | @single e es mark _ ih =>
    rw [cons_append, iterate_single mark, ih fun x hx => small x (mem_cons_of_mem _ hx)]
    simp
  | @group group es complete _ ih =>
    obtain ⟨n, hdown, hlen⟩ := complete
    have hn : n + 1 < 2 ^ 32 := by
      cases group with
      | nil => simp at hlen
      | cons e group =>
        have hcount := hdown.count_head
        have hle := count_le hcount
        have hne : n ≠ 2 ^ 32 - 1 := by
          rintro rfl
          exact small e (by simp) hcount
        omega
    rw [append_assoc, iterate_group hn hdown hlen, ih fun x hx => small x (mem_append_right _ hx)]
    simp

lemma iterate_group_ok {H : Handler E S} {s s' : S} (hgroup : IsGroup group)
    (h : H.iterate (group ++ rest) {} s = (.ok, b', s')) :
    ∃ s₁, H.replayGroup group s = (.ok, s₁) ∧ H.iterate rest {} s₁ = (.ok, b', s') := by
  obtain ⟨n, hdown, hlen⟩ := hgroup
  by_cases hn : n + 1 < 2 ^ 32
  · obtain ⟨front, last, remaining, -, hsome, hiterate, hadd, hfull, hbuffer⟩ :=
      iterate_last hn hdown hlen
    rw [hiterate, Handler.iterate, hadd] at h
    simp only [Handler.handleEdit, hsome, hfull, if_true, hbuffer] at h
    cases hreplay : H.replayGroup group s with
    | mk status s₁ =>
      rw [hreplay] at h
      cases status with
      | ok => exact ⟨s₁, rfl, h⟩
      | _ => simp at h
  · -- the first edit of a group of 2^32 edits is refused
    cases group with
    | nil => simp at hlen
    | cons e group =>
      have hcount := hdown.count_head
      have hle := count_le hcount
      obtain rfl : n = 2 ^ 32 - 1 := by omega
      have hrefused := addEdit_oversized hcount
      rw [cons_append, Handler.iterate] at h
      generalize hadd : ({} : AtomicGroupReadBuffer E).addEdit e = result at hrefused h
      obtain ⟨status, b⟩ := result
      cases hrefused
      simp at h

lemma iterate_single_ok {H : Handler E S} {s s' : S} (mark : e.remainingEntries = none)
    (h : H.iterate (e :: rest) {} s = (.ok, b', s')) :
    ∃ s₁, H.applyVersionEdit e s = (.ok, s₁) ∧ H.iterate rest {} s₁ = (.ok, b', s') := by
  cases happly : H.applyVersionEdit e s with
  | mk status s₁ =>
    simp only [Handler.iterate, addEdit, Handler.handleEdit, mark, happly,
      ne_eq, not_true_eq_false, if_false] at h
    cases status with
    | ok => exact ⟨s₁, rfl, h⟩
    | _ => simp at h

omit [Inhabited E] in
lemma replayGroup_ok {H : Handler E S} {s s' : S} (h : H.replayGroup group s = (.ok, s')) :
    ∃ s₁ s₂, H.onAtomicGroupReplayBegin s = (.ok, s₁) ∧ H.replay group s₁ = (.ok, s₂) ∧
      H.onAtomicGroupReplayEnd s₂ = (.ok, s') := by
  rw [replayGroup] at h
  split at h
  · next s₁ hbegin =>
    split at h
    · next s₂ hreplay => exact ⟨s₁, s₂, hbegin, hreplay, h⟩
    · next hfailed => exact absurd h (hfailed _)
  · next hfailed => exact absurd h (hfailed _)

omit [Inhabited E] in
/-- What a handler keeps with every edit, it keeps over a list of edits. -/
lemma replay_keeps {H : Handler E S} (inv : List (LogEdit E) → S → Prop) {s s' : S}
    (happly : ∀ {done e s s'}, e ∈ edits → inv done s → H.applyVersionEdit e s = (.ok, s') →
      inv (done ++ [e]) s') (h : H.replay edits s = (.ok, s')) (hinv : inv done s) :
    inv (done ++ edits) s' := by
  induction edits generalizing done s with
  | nil =>
    cases h
    rwa [append_nil]
  | cons e edits ih =>
    rw [replay] at h
    split at h
    · next s₁ hstep =>
      have hrest := ih (fun he => happly (mem_cons_of_mem e he)) h (happly mem_cons_self hinv hstep)
      rwa [append_assoc] at hrest
    · next hfailed => exact absurd h (hfailed _)

/-- The edits of a group that is cut off stay in the buffer. -/
lemma iterate_cut (hdone : WellFormed done) (small : Small done) (hn : n + 1 < 2 ^ 32)
    (h : Begins n group) (rest : List (LogEdit E)) :
    recorder.iterate (done ++ group ++ rest) {} [] =
      recorder.iterate rest (filled n group) done := by
  rw [append_assoc, iterate_wellFormed hdone small, nil_append]
  exact iterate_begins [] hn h.descends h.short

lemma iterate_oversized (hdone : WellFormed done) (small : Small done) (nonempty : group ≠ [])
    (h : Descends (2 ^ 32 - 1) group) (rest : List (LogEdit E)) :
    (recorder.iterate (done ++ group ++ rest) {} []).1 = .corruption ∧
    (recorder.iterate (done ++ group ++ rest) {} []).2.2 = done := by
  cases group with
  | nil => exact absurd rfl nonempty
  | cons e group =>
    have hrefused := addEdit_oversized h.count_head
    rw [append_assoc, iterate_wellFormed hdone small, nil_append, cons_append]
    generalize hadd : ({} : AtomicGroupReadBuffer E).addEdit e = result at hrefused
    obtain ⟨status, b⟩ := result
    cases hrefused
    simp [Handler.iterate, hadd]

/-- The loop applies the longest front of single edits and complete groups, and reports a
corruption exactly if a group is broken. -/
def Replays (edits : List (LogEdit E)) : Prop :=
  LongestWellFormed (Handler.recorder.iterate edits {} []).2.2 edits ∧
  ((Handler.recorder.iterate edits {} []).1 = .corruption ↔ Broken edits) ∧
  ((Handler.recorder.iterate edits {} []).1 ≠ .corruption →
    (Handler.recorder.iterate edits {} []).1 = .ok)

lemma replays_of_small (h : ¬ Oversized edits) : Replays edits := by
  unfold Replays
  rcases exists_classified edits with hwf | ⟨done, n, group, rfl, hdone, hgroup⟩ | hbroken
  · have hsmall : Small edits := (small_or_oversized hwf).resolve_right fun hover =>
      h (by simpa using hover [])
    have hrun : recorder.iterate edits {} [] = (.ok, {}, edits) := by
      have hall : recorder.iterate (edits ++ []) {} [] = (.ok, {}, edits) :=
        iterate_wellFormed hwf hsmall []
      rwa [append_nil] at hall
    rw [hrun]
    exact ⟨longestWellFormed_self hwf,
      ⟨fun hc => absurd hc (by simp), fun hb => absurd hwf hb.not_wellFormed⟩, fun _ => rfl⟩
  · have hsmall : Small done := (small_or_oversized hdone).resolve_right fun hover => h (hover _)
    have hn : n + 1 < 2 ^ 32 := by
      have hle : n ≤ 2 ^ 32 - 1 := by
        cases group with
        | nil => exact absurd rfl hgroup.nonempty
        | cons e group => exact count_le hgroup.descends.count_head
      have hne : n ≠ 2 ^ 32 - 1 := by
        rintro rfl
        exact h ⟨done, group, [], by simp, hdone, hsmall, hgroup.nonempty, hgroup.descends,
          .inl rfl⟩
      omega
    have hrun := iterate_cut hdone hsmall hn hgroup []
    rw [append_nil, Handler.iterate] at hrun
    rw [hrun]
    exact ⟨longestWellFormed_of_begins hdone hgroup,
      ⟨fun hc => absurd hc (by simp), fun hb => absurd hb (not_broken_begins hdone hgroup)⟩,
      fun _ => rfl⟩
  · have hb := hbroken
    obtain ⟨done, n, group, e, rest, rfl, hdone, hgroup, hcount⟩ := hbroken
    have hsmall : Small done := (small_or_oversized hdone).resolve_right fun hover =>
      h (by rw [append_assoc]; exact hover _)
    have hlongest := longestWellFormed_of_broken hdone hgroup hcount rest
    by_cases hn : n + 1 < 2 ^ 32
    · have hrefused := addEdit_broken hn hgroup hcount
      rw [iterate_cut hdone hsmall hn hgroup]
      generalize hadd : (filled n group).addEdit e = result at hrefused
      obtain ⟨status, b⟩ := result
      cases hrefused
      rw [Handler.iterate, hadd]
      exact ⟨hlongest, ⟨fun _ => hb, fun _ => rfl⟩, fun hc => absurd rfl hc⟩
    · have hle : n ≤ 2 ^ 32 - 1 := by
        cases group with
        | nil => exact absurd rfl hgroup.nonempty
        | cons e group => exact count_le hgroup.descends.count_head
      obtain rfl : n = 2 ^ 32 - 1 := by omega
      obtain ⟨hstatus, happlied⟩ :=
        iterate_oversized hdone hsmall hgroup.nonempty hgroup.descends (e :: rest)
      rw [hstatus, happlied]
      exact ⟨hlongest, ⟨fun _ => hb, fun _ => rfl⟩, fun hc => absurd rfl hc⟩

lemma not_replays_of_oversized (h : Oversized edits) : ¬ Replays edits := by
  obtain ⟨done, group, rest, rfl, hdone, hsmall, nonempty, hdown, hend⟩ := h
  obtain ⟨hstatus, happlied⟩ := iterate_oversized hdone hsmall nonempty hdown rest
  intro hreplays
  unfold Replays at hreplays
  rw [hstatus, happlied] at hreplays
  obtain ⟨hlongest, hcorruption, -⟩ := hreplays
  by_cases hlen : group.length = 2 ^ 32
  · -- the group is complete, and its edits were not applied
    have hgroup : IsGroup group := ⟨2 ^ 32 - 1, hdown, by omega⟩
    have hle := hlongest.longest (done ++ group) (prefix_append _ _)
      (hdone.append hgroup.wellFormed)
    rw [length_append] at hle
    omega
  · -- the group is cut off, which is no corruption
    obtain rfl := hend.resolve_right hlen
    have hbegins : Begins (2 ^ 32 - 1) group := by
      refine ⟨nonempty, hdown, ?_⟩
      have := hdown.length_le
      omega
    rw [append_nil] at hcorruption
    exact not_broken_begins hdone hbegins (hcorruption.1 rfl)

/-- **Atomic groups.** The loop is right on every manifest but those with a group of 2^32 edits
that is complete or cut off. -/
theorem replays_iff (edits : List (LogEdit E)) : Replays edits ↔ ¬ Oversized edits :=
  ⟨fun h hover => not_replays_of_oversized hover h, replays_of_small⟩

/-- A manifest that ends behind the first edit of a group of 2^32 edits is reported as
corrupt. -/
theorem not_replays_cut_off : ¬ Replays [(⟨(), some 0xFFFFFFFF⟩ : LogEdit Unit)] := by
  apply not_replays_of_oversized
  refine ⟨[], [⟨(), some 0xFFFFFFFF⟩], [], rfl, .nil, by simp [Small], by simp, ?_, Or.inl rfl⟩
  exact ⟨by decide, descends_nil _⟩

end Loop

end BucketLSM.Manifest
