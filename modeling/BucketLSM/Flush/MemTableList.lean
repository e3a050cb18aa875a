import Mathlib.Data.List.Basic
import Mathlib.Data.List.Sort
import Mathlib.Data.List.TakeWhile
import Mathlib.Tactic.Common

/-!
# The list of immutable memtables

`MemTableList` (`db/memtable_list.cc`) holds the memtables of a column family that wait to
be flushed. Flush jobs pick memtables from it, mark them completed when their tables are
written, and commit completed memtables to the manifest from the oldest on.

The list is kept oldest first here; the source keeps it newest first and walks it from the
back. Flushes run in parallel, but every function below runs under the DB mutex.
-/

namespace BucketLSM

open List

/-- A level-0 file a flush adds: the job that wrote it and its epoch number. -/
structure FlushedFile where
  job : ℕ
  epochNumber : ℕ
deriving DecidableEq, Repr

/-- The flush state of an immutable memtable. The edit of the first memtable of a batch
holds the files of the whole batch, and `fileNumber` identifies the batch. -/
structure MemTable where
  id : ℕ
  flushInProgress : Bool
  flushCompleted : Bool
  fileNumber : ℕ
  edit : List FlushedFile
deriving DecidableEq, Repr

namespace MemTable

/-- A memtable just made immutable. -/
def new (id : ℕ) : MemTable := ⟨id, false, false, 0, []⟩

/-- The memtable after its flush has been given up. -/
def reset (m : MemTable) : MemTable :=
  { m with flushInProgress := false, flushCompleted := false, fileNumber := 0, edit := [] }

end MemTable

open MemTable (reset flushCompleted)

namespace MemTableList

/-- The loop of `PickMemtablesToFlush`: the marked list and the ids of the picked memtables.
The first memtable in progress after a picked one ends the batch. -/
def pickLoop (maxMemtableId : ℕ) : Bool → List MemTable → List MemTable × List ℕ
  | _, [] => ([], [])
  | picked, m :: ms =>
    if maxMemtableId < m.id then (m :: ms, [])
    else if m.flushInProgress = false then
      let r := pickLoop maxMemtableId true ms
      ({ m with flushInProgress := true } :: r.1, m.id :: r.2)
    else if picked then (m :: ms, [])
    else
      let r := pickLoop maxMemtableId false ms
      (m :: r.1, r.2)

/-- `MemTableList::PickMemtablesToFlush`. -/
def pickMemtablesToFlush (maxMemtableId : ℕ) (memlist : List MemTable) : List MemTable × List ℕ :=
  pickLoop maxMemtableId false memlist

/-- The first loop of `TryInstallMemtableFlushResults`: the memtables of the batch are
completed, with the files of the job in the edit of the first one. -/
def complete (mems : List ℕ) (fileNumber : ℕ) (edit : List FlushedFile)
    (memlist : List MemTable) : List MemTable :=
  memlist.map fun m =>
    if m.id ∈ mems then
      { m with
        flushCompleted := true
        fileNumber := fileNumber
        edit := if mems.head? = some m.id then edit else m.edit }
    else m

/-- The memtables a commit covers: the completed ones from the oldest on. -/
def committable (memlist : List MemTable) : List MemTable :=
  memlist.takeWhile MemTable.flushCompleted

/-- The edits of a commit: those of the first memtable of every batch. -/
def batchEdits : Option ℕ → List MemTable → List FlushedFile
  | _, [] => []
  | batch, m :: ms =>
    (if batch = some m.fileNumber then [] else m.edit) ++ batchEdits (some m.fileNumber) ms

/-- `RemoveMemTablesOrRestoreFlags` after a commit: the committed memtables leave the list,
or are reset if the manifest could not be written. -/
def removeOrRestore (manifestWritten : Bool) (memlist : List MemTable) : List MemTable :=
  if manifestWritten then memlist.dropWhile MemTable.flushCompleted
  else (committable memlist).map MemTable.reset ++ memlist.dropWhile MemTable.flushCompleted

/-- The first part of `RollbackMemtableFlush`: the completed memtables that follow the first
memtable of the failed batch are reset, up to the first one not completed. -/
def rollbackSucceeding (first : ℕ) : List MemTable → List MemTable
  | [] => []
  | m :: ms =>
    if m.id = first then
      m :: ((committable ms).map MemTable.reset ++ ms.dropWhile MemTable.flushCompleted)
    else m :: rollbackSucceeding first ms

/-- `MemTableList::RollbackMemtableFlush` with `rollback_succeeding_memtables`. -/
def rollbackMemtableFlush (mems : List ℕ) (memlist : List MemTable) : List MemTable :=
  let memlist := match mems with
    | first :: _ => rollbackSucceeding first memlist
    | [] => memlist
  memlist.map fun m => if m.id ∈ mems ∧ m.flushInProgress then m.reset else m

end MemTableList

/-! ## What the operations on the list do -/

namespace MemTableList

/-- Picking marks memtables as in progress and changes nothing else. -/
lemma pickLoop_spec (maxId : ℕ) (picked : Bool) (l : List MemTable) :
    (pickLoop maxId picked l).1.map MemTable.id = l.map MemTable.id ∧
    (∀ m ∈ l, m.flushInProgress → m ∈ (pickLoop maxId picked l).1) ∧
    (∀ m ∈ (pickLoop maxId picked l).1, m ∈ l ∨
      ∃ m₀ ∈ l, m₀.flushInProgress = false ∧ m = { m₀ with flushInProgress := true }) ∧
    ∀ a ∈ (pickLoop maxId picked l).2, ∃ m ∈ l, m.flushInProgress = false ∧ m.id = a ∧
      { m with flushInProgress := true } ∈ (pickLoop maxId picked l).1 := by
  induction l generalizing picked with
  | nil => simp [pickLoop]
  | cons m l ih =>
    unfold pickLoop
    split_ifs with hmax hidle hpicked
    · exact ⟨rfl, fun _ h _ => h, fun _ h => Or.inl h, by simp⟩
    · obtain ⟨h1, h2, h3, h4⟩ := ih true
      refine ⟨by simp [h1], fun x hx hprog => ?_, fun x hx => ?_, fun a ha => ?_⟩
      · rcases mem_cons.1 hx with rfl | hx
        · rw [hidle] at hprog
          exact absurd hprog (by simp)
        · exact mem_cons_of_mem _ (h2 x hx hprog)
      · rcases mem_cons.1 hx with rfl | hx
        · exact Or.inr ⟨m, mem_cons_self, hidle, rfl⟩
        · rcases h3 x hx with h | ⟨m₀, hm₀, h⟩
          · exact Or.inl (mem_cons_of_mem _ h)
          · exact Or.inr ⟨m₀, mem_cons_of_mem _ hm₀, h⟩
      · rcases mem_cons.1 ha with rfl | ha
        · exact ⟨m, mem_cons_self, hidle, rfl, mem_cons_self⟩
        · obtain ⟨m₀, hm₀, hp, hid, hmem⟩ := h4 a ha
          exact ⟨m₀, mem_cons_of_mem _ hm₀, hp, hid, mem_cons_of_mem _ hmem⟩
    · exact ⟨rfl, fun _ h _ => h, fun _ h => Or.inl h, by simp⟩
    · obtain ⟨h1, h2, h3, h4⟩ := ih false
      refine ⟨by simp [h1], fun x hx hprog => ?_, fun x hx => ?_, fun a ha => ?_⟩
      · rcases mem_cons.1 hx with rfl | hx
        · exact mem_cons_self
        · exact mem_cons_of_mem _ (h2 x hx hprog)
      · rcases mem_cons.1 hx with rfl | hx
        · exact Or.inl mem_cons_self
        · rcases h3 x hx with h | ⟨m₀, hm₀, h⟩
          · exact Or.inl (mem_cons_of_mem _ h)
          · exact Or.inr ⟨m₀, mem_cons_of_mem _ hm₀, h⟩
      · obtain ⟨m₀, hm₀, hp, hid, hmem⟩ := h4 a ha
        exact ⟨m₀, mem_cons_of_mem _ hm₀, hp, hid, mem_cons_of_mem _ hmem⟩

/-- Resetting the completed memtables at the front leaves the others and completes none. -/
lemma resetFront_spec (l : List MemTable) :
    ((committable l).map reset ++ l.dropWhile flushCompleted).map MemTable.id =
      l.map MemTable.id ∧ (∀ m ∈ l, m.flushCompleted = false →
      m ∈ (committable l).map reset ++ l.dropWhile flushCompleted) ∧
    ∀ m ∈ (committable l).map reset ++ l.dropWhile flushCompleted,
      m ∈ l ∨ ∃ m₀ ∈ l, m = m₀.reset := by
  have hsplit : committable l ++ l.dropWhile flushCompleted = l :=
    takeWhile_append_dropWhile
  refine ⟨?_, fun m hm hc => ?_, fun m hm => ?_⟩
  · nth_rewrite 3 [← hsplit]
    rw [map_append, map_append, map_map]
    rfl
  · rw [← hsplit] at hm
    rcases mem_append.1 hm with hm | hm
    · rw [mem_takeWhile_imp hm] at hc
      exact absurd hc (by simp)
    · exact mem_append_right _ hm
  · rcases mem_append.1 hm with hm | hm
    · obtain ⟨m₀, hm₀, rfl⟩ := mem_map.1 hm
      exact Or.inr ⟨m₀, (takeWhile_sublist _).subset hm₀, rfl⟩
    · exact Or.inl ((dropWhile_sublist _).subset hm)

lemma rollbackSucceeding_spec (first : ℕ) (l : List MemTable) :
    (rollbackSucceeding first l).map MemTable.id = l.map MemTable.id ∧
    (∀ m ∈ l, m.flushCompleted = false → m ∈ rollbackSucceeding first l) ∧
    ∀ m ∈ rollbackSucceeding first l, m ∈ l ∨ ∃ m₀ ∈ l, m = m₀.reset := by
  induction l with
  | nil => simp [rollbackSucceeding]
  | cons x l ih =>
    -- in both branches the head stays and the tail is covered by a lemma
    suffices h : ∀ l' : List MemTable, l'.map MemTable.id = l.map MemTable.id ∧
        (∀ m ∈ l, m.flushCompleted = false → m ∈ l') ∧ (∀ m ∈ l', m ∈ l ∨ ∃ m₀ ∈ l, m = m₀.reset) →
        (x :: l').map MemTable.id = (x :: l).map MemTable.id ∧
        (∀ m ∈ x :: l, m.flushCompleted = false → m ∈ x :: l') ∧
        ∀ m ∈ x :: l', m ∈ x :: l ∨ ∃ m₀ ∈ x :: l, m = m₀.reset by
      unfold rollbackSucceeding
      split_ifs
      · exact h _ (resetFront_spec l)
      · exact h _ ih
    rintro l' ⟨h1, h2, h3⟩
    refine ⟨by simp [h1], fun m hm hc => ?_, fun m hm => ?_⟩
    · rcases mem_cons.1 hm with rfl | hm
      · exact mem_cons_self
      · exact mem_cons_of_mem _ (h2 m hm hc)
    · rcases mem_cons.1 hm with rfl | hm
      · exact Or.inl mem_cons_self
      · rcases h3 m hm with h | ⟨m₀, hm₀, h⟩
        · exact Or.inl (mem_cons_of_mem _ h)
        · exact Or.inr ⟨m₀, mem_cons_of_mem _ hm₀, h⟩

/-- Rolling a batch back keeps the memtables outside it that are not completed, and every
memtable left is an old one or a reset one. -/
lemma rollbackMemtableFlush_spec (mems : List ℕ) (l : List MemTable) :
    (rollbackMemtableFlush mems l).map MemTable.id = l.map MemTable.id ∧
    (∀ m ∈ l, m.flushCompleted = false → m.id ∉ mems → m ∈ rollbackMemtableFlush mems l) ∧
    ∀ m ∈ rollbackMemtableFlush mems l, m ∈ l ∨ ∃ m₀ ∈ l, m = m₀.reset := by
  obtain ⟨l', h2, h3⟩ : ∃ l' : List MemTable, rollbackMemtableFlush mems l =
      l'.map (fun m => if m.id ∈ mems ∧ m.flushInProgress then m.reset else m) ∧
      l'.map MemTable.id = l.map MemTable.id ∧ (∀ m ∈ l, m.flushCompleted = false → m ∈ l') ∧
      ∀ m ∈ l', m ∈ l ∨ ∃ m₀ ∈ l, m = m₀.reset := by
    cases mems with
    | nil => exact ⟨l, rfl, rfl, fun m hm _ => hm, fun m hm => Or.inl hm⟩
    | cons first rest =>
      obtain ⟨h1, h2, h3⟩ := rollbackSucceeding_spec first l
      exact ⟨_, rfl, h1, h2, h3⟩
  obtain ⟨hids, hkeep, hfrom⟩ := h3
  rw [h2]
  refine ⟨?_, fun m hm hc hid => ?_, fun m hm => ?_⟩
  · rw [← hids, map_map]
    refine map_congr_left fun m _ => ?_
    simp only [Function.comp]
    split_ifs <;> rfl
  · exact mem_map.2 ⟨m, hkeep m hm hc, by simp [hid]⟩
  · obtain ⟨x, hx, rfl⟩ := mem_map.1 hm
    split_ifs
    · rcases hfrom x hx with h | ⟨m₀, hm₀, rfl⟩
      · exact Or.inr ⟨x, h, rfl⟩
      · exact Or.inr ⟨m₀, hm₀, rfl⟩
    · exact hfrom x hx

/-- The effect of a commit on the list: it keeps the order, keeps what is not completed, and
has only old memtables, some of them reset. -/
lemma removeOrRestore_spec (manifestWritten : Bool) (l : List MemTable) :
    ((removeOrRestore manifestWritten l).map MemTable.id).Sublist (l.map MemTable.id) ∧
    (∀ m ∈ l, m.flushCompleted = false → m ∈ removeOrRestore manifestWritten l) ∧
    ∀ m ∈ removeOrRestore manifestWritten l, m ∈ l ∨ ∃ m₀ ∈ l, m = m₀.reset := by
  obtain ⟨hids, hkeep, hfrom⟩ := resetFront_spec l
  cases manifestWritten with
  | false => exact ⟨hids ▸ Sublist.refl _, hkeep, hfrom⟩
  | true =>
    have hsub : (l.dropWhile flushCompleted).Sublist l := dropWhile_sublist _
    refine ⟨hsub.map _, fun m hm hc => ?_, fun m hm => Or.inl (hsub.subset hm)⟩
    rw [← takeWhile_append_dropWhile (p := flushCompleted) (l := l)] at hm
    rcases mem_append.1 hm with hm | hm
    · rw [mem_takeWhile_imp hm] at hc
      exact absurd hc (by simp)
    · exact hm

variable {l : List MemTable}

lemma mem_of_completed_removeOrRestore {manifestWritten : Bool} {m : MemTable}
    (hm : m ∈ removeOrRestore manifestWritten l) (hc : m.flushCompleted) : m ∈ l := by
  rcases (removeOrRestore_spec manifestWritten l).2.2 m hm with hm | ⟨m₀, -, rfl⟩
  · exact hm
  · exact absurd hc (by simp [reset])

/-- A file of a commit comes from the edit of a committed memtable. -/
lemma mem_batchEdits {batch : Option ℕ} {f : FlushedFile} (h : f ∈ batchEdits batch l) :
    ∃ m ∈ l, f ∈ m.edit := by
  induction l generalizing batch with
  | nil => exact absurd h not_mem_nil
  | cons m l ih =>
    rcases mem_append.1 h with h | h
    · split_ifs at h
      · exact absurd h not_mem_nil
      · exact ⟨m, mem_cons_self, h⟩
    · obtain ⟨m', hm', hf⟩ := ih h
      exact ⟨m', mem_cons_of_mem _ hm', hf⟩

/-! ## What a rollback covers -/

lemma rollbackSucceeding_append {first : MemTable} {older rest : List MemTable}
    (h : first.id ∉ older.map MemTable.id) : rollbackSucceeding first.id (older ++ first :: rest) =
      older ++ first :: ((committable rest).map reset ++
        rest.dropWhile flushCompleted) := by
  induction older with
  | nil => simp [rollbackSucceeding]
  | cons m older ih =>
    rw [map_cons, mem_cons, not_or] at h
    simp only [cons_append, rollbackSucceeding]
    rw [if_neg (Ne.symm h.1), ih h.2]

/-- Resetting the memtables of a batch does not touch the others. -/
lemma map_reset_of_disjoint {mems : List ℕ} (h : ∀ m ∈ l, m.id ∉ mems) :
    l.map (fun m => if m.id ∈ mems ∧ m.flushInProgress then m.reset else m) = l := by
  conv_rhs => rw [← map_id l]
  refine map_congr_left fun m hm => ?_
  rw [if_neg (fun hc => h m hm hc.1), id_eq]

lemma map_reset_of_batch {mems : List ℕ} (h : ∀ m ∈ l, m.id ∈ mems ∧ m.flushInProgress) :
    l.map (fun m => if m.id ∈ mems ∧ m.flushInProgress then m.reset else m) =
      l.map reset :=
  map_congr_left fun m hm => if_pos (h m hm)

/-- What the rollback makes of a batch of running memtables. It looks for completed memtables
right behind the oldest one of the batch, so it finds some only if that is the only one. -/
lemma rollbackMemtableFlush_append {older batch younger : List MemTable}
    (distinct : ((older ++ batch ++ younger).map MemTable.id).Nodup) (nonempty : batch ≠ [])
    (running : ∀ m ∈ batch, m.flushInProgress ∧ m.flushCompleted = false) :
    rollbackMemtableFlush (batch.map MemTable.id) (older ++ batch ++ younger) =
      older ++ batch.map reset ++
        if batch.length = 1 then
          (committable younger).map reset ++ younger.dropWhile flushCompleted
        else younger := by
  simp only [map_append, nodup_append, mem_map, mem_append] at distinct
  have hmems : ∀ m ∈ batch, m.id ∈ batch.map MemTable.id ∧ m.flushInProgress := fun m hm =>
    ⟨mem_map_of_mem hm, (running m hm).1⟩
  have holder : ∀ m ∈ older, m.id ∉ batch.map MemTable.id := by
    intro m hm hmem
    exact distinct.1.2.2 _ ⟨m, hm, rfl⟩ _ (mem_map.1 hmem) rfl
  have hyounger : ∀ m ∈ younger, m.id ∉ batch.map MemTable.id := by
    intro m hm hmem
    exact distinct.2.2 _ (Or.inr (mem_map.1 hmem)) _ ⟨m, hm, rfl⟩ rfl
  -- whatever the first part makes of the memtables behind the batch, they keep their ids
  have hlast (rest : List MemTable) (hrest : ∀ m ∈ rest, m.id ∉ batch.map MemTable.id) :
      (older ++ batch ++ rest).map
        (fun m => if m.id ∈ batch.map MemTable.id ∧ m.flushInProgress then m.reset else m) =
      older ++ batch.map reset ++ rest := by
    rw [map_append, map_append, map_reset_of_disjoint holder, map_reset_of_batch hmems,
      map_reset_of_disjoint hrest]
  cases batch with
  | nil => exact absurd rfl nonempty
  | cons first batch =>
    have hfirst : first.id ∉ older.map MemTable.id := by
      intro hmem
      obtain ⟨m, hm, heq⟩ := mem_map.1 hmem
      exact holder m hm (by rw [heq]; simp)
    cases batch with
    | nil =>
      have hrest : ∀ m ∈ (committable younger).map reset ++
          younger.dropWhile flushCompleted, m.id ∉ [first].map MemTable.id := by
        intro m hm
        rcases mem_append.1 hm with hm | hm
        · obtain ⟨m₀, hm₀, rfl⟩ := mem_map.1 hm
          exact hyounger m₀ ((takeWhile_sublist _).subset hm₀)
        · exact hyounger m ((dropWhile_sublist _).subset hm)
      rw [if_pos length_singleton, ← hlast _ hrest]
      simp only [rollbackMemtableFlush, map_cons, append_assoc, cons_append,
        nil_append, rollbackSucceeding_append hfirst]
    | cons second batch =>
      have hsecond := (running second (by simp)).2
      have hstop : committable (second :: batch ++ younger) = [] := by
        simp [committable, hsecond]
      have hkeep : (second :: batch ++ younger).dropWhile flushCompleted =
          second :: batch ++ younger := by simp [hsecond]
      rw [if_neg (by simp), ← hlast younger hyounger]
      simp only [rollbackMemtableFlush, map_cons]
      rw [append_assoc, cons_append, rollbackSucceeding_append hfirst, hstop, hkeep]
      simp

/-- A rollback of the batch covers what it says: the completed memtables directly behind the
youngest one of the batch are reset, and outside of the batch nothing else changes. -/
def RollbackCovers (older batch younger : List MemTable) : Prop :=
  ∃ batch', batch'.map MemTable.id = batch.map MemTable.id ∧
    rollbackMemtableFlush (batch.map MemTable.id) (older ++ batch ++ younger) =
      older ++ batch' ++ ((committable younger).map MemTable.reset ++
        younger.dropWhile MemTable.flushCompleted)

lemma map_id_reset (l : List MemTable) :
    (l.map reset).map MemTable.id = l.map MemTable.id := by
  rw [map_map]
  rfl

/-- **Rollback.** A batch of running memtables is rolled back together with the completed
memtables behind it exactly if it is a single memtable, or there are none. -/
theorem rollbackCovers_iff (older batch younger : List MemTable)
    (distinct : ((older ++ batch ++ younger).map MemTable.id).Nodup) (nonempty : batch ≠ [])
    (running : ∀ m ∈ batch, m.flushInProgress ∧ m.flushCompleted = false) :
    RollbackCovers older batch younger ↔
      batch.length = 1 ∨ ∀ m, younger.head? = some m → m.flushCompleted = false := by
  unfold RollbackCovers
  rw [rollbackMemtableFlush_append distinct nonempty running]
  by_cases hsingle : batch.length = 1
  · rw [if_pos hsingle]
    exact iff_of_true ⟨_, map_id_reset batch, rfl⟩ (Or.inl hsingle)
  · rw [if_neg hsingle]
    constructor
    · rintro ⟨batch', hids, heq⟩
      refine Or.inr fun m hm => ?_
      have hlen : (older ++ batch.map MemTable.reset).length = (older ++ batch').length := by
        have := congrArg length hids
        simp only [length_map] at this
        simp [this]
      have hyounger := (append_inj heq hlen).2
      by_contra hc
      cases younger with
      | nil => simp at hm
      | cons x younger =>
        cases hm
        rw [Bool.not_eq_false] at hc
        have := congrArg head? hyounger
        simp only [committable, takeWhile_cons, hc, if_true, map_cons,
          cons_append, head?_cons, Option.some.injEq] at this
        rw [this] at hc
        simp [MemTable.reset] at hc
    · rintro (h | h)
      · exact absurd h hsingle
      · refine ⟨_, map_id_reset batch, ?_⟩
        cases younger with
        | nil => rfl
        | cons x younger => simp [committable, h x rfl]

/-- A single memtable with a completed one behind it. -/
theorem rollbackCovers_single :
    RollbackCovers [] [⟨1, true, false, 0, []⟩] [⟨2, true, true, 7, [⟨7, 3⟩]⟩] :=
  (rollbackCovers_iff _ _ _ (by decide) (by decide) (by decide)).2 (Or.inl rfl)

/-- Two memtables picked together with a completed one behind them, as `PickMemtablesToFlush`
leaves them: the rollback leaves the completed one with its edit. -/
theorem not_rollbackCovers_pair :
    pickMemtablesToFlush 2 [MemTable.new 1, MemTable.new 2, ⟨3, true, true, 7, [⟨7, 3⟩]⟩] =
      ([⟨1, true, false, 0, []⟩, ⟨2, true, false, 0, []⟩, ⟨3, true, true, 7, [⟨7, 3⟩]⟩], [1, 2]) ∧
    rollbackMemtableFlush [1, 2]
      [⟨1, true, false, 0, []⟩, ⟨2, true, false, 0, []⟩, ⟨3, true, true, 7, [⟨7, 3⟩]⟩] =
      [MemTable.new 1, MemTable.new 2, ⟨3, true, true, 7, [⟨7, 3⟩]⟩] ∧
    ¬ RollbackCovers [] [⟨1, true, false, 0, []⟩, ⟨2, true, false, 0, []⟩]
      [⟨3, true, true, 7, [⟨7, 3⟩]⟩] := by
  refine ⟨by decide, by decide, ?_⟩
  rintro ⟨batch', hids, heq⟩
  have hlast := congrArg getLast? heq
  rw [← append_assoc] at hlast
  simp [rollbackMemtableFlush, rollbackSucceeding, committable, MemTable.reset] at hlast

end MemTableList

end BucketLSM
