import BucketLSM.Manifest.EditHandler

/-!
# Edits of the set of logs in any order

Edits of different threads reach the manifest in any order and may be replayed again. With synced
sizes in all additions, what a `WalSet` holds depends only on which additions and deletions it has
seen (`replay_order_independent`).
-/

namespace BucketLSM.Manifest

/-- The edits of a `WalSet`. `AddWals` is a sequence of additions. -/
inductive WalEdit
  | addWal (wal : WalAddition)
  | deleteWalsBefore (wal : ℕ)
deriving DecidableEq

namespace WalSet

open List

def apply : WalEdit → WalSet → Status × WalSet
  | .addWal wal, w => w.addWal wal
  | .deleteWalsBefore wal, w => (.ok, w.deleteWalsBefore wal)

/-- The edits up to the first that fails. -/
def replay (edits : List WalEdit) : Status × WalSet := Rep.forEach apply edits {}

/-- The largest deletion. -/
def minKept : List WalEdit → ℕ
  | [] => 0
  | .addWal _ :: edits => minKept edits
  | .deleteWalsBefore wal :: edits => max wal (minKept edits)

/-- The largest synced size of a log. -/
def largest (n : ℕ) : List WalEdit → Option ℕ
  | [] => none
  | .addWal ⟨m, some size⟩ :: edits =>
    if m = n then some ((largest n edits).elim size (max size)) else largest n edits
  | _ :: edits => largest n edits

/-- The set after some edits. -/
def after (edits : List WalEdit) : WalSet where
  wals n := if n < minKept edits then none else (largest n edits).map some
  minWalNumberToKeep := minKept edits

variable {edits seen : List WalEdit} {n size : ℕ}

lemma lt_minKept : n < minKept edits ↔ ∃ wal, .deleteWalsBefore wal ∈ edits ∧ n < wal := by
  fun_induction minKept edits with
  | case1 => simp
  | case2 wal edits ih => simp [ih]
  | case3 wal edits ih => simp [ih, or_and_right, exists_or]

lemma largest_eq_none : largest n edits = none ↔ ∀ size, .addWal ⟨n, some size⟩ ∉ edits := by
  fun_induction largest n edits with grind

lemma isGreatest_of_largest (h : largest n edits = some size) :
    IsGreatest {size | .addWal ⟨n, some size⟩ ∈ edits} size := by
  have hnone := @largest_eq_none
  simp only [IsGreatest, mem_upperBounds, Set.mem_ofPred_eq] at *
  fun_induction largest n edits generalizing size with
  | case2 size' edits ih => cases hl : largest n edits <;> grind
  | _ => grind

/-- A log is kept with its largest size iff no deletion is above it. -/
lemma wals_after_eq_some {synced : Option ℕ} : (after edits).wals n = some synced ↔
    (∀ wal, .deleteWalsBefore wal ∈ edits → wal ≤ n) ∧
      ∃ s, synced = some s ∧ IsGreatest {s | .addWal ⟨n, some s⟩ ∈ edits} s := by
  have hkept : (∀ wal, .deleteWalsBefore wal ∈ edits → wal ≤ n) ↔ ¬ n < minKept edits := by
    simp [lt_minKept]
  have hlargest (s : ℕ) : largest n edits = some s ↔
      IsGreatest {s | .addWal ⟨n, some s⟩ ∈ edits} s := by
    refine ⟨isGreatest_of_largest, fun hs => ?_⟩
    cases h : largest n edits with
    | none => exact absurd hs.1 (largest_eq_none.1 h s)
    | some s' => rw [hs.unique (isGreatest_of_largest h)]
  rw [hkept]
  simp only [after]
  split_ifs with h
  · simp [h]
  · simp [h, hlargest, and_comm, eq_comm]

lemma addWal_after {wal : WalAddition} (sized : wal.syncedSize.isSome) :
    addWal wal (after seen) = (.ok, after (.addWal wal :: seen)) := by
  obtain ⟨m, _ | size⟩ := wal
  · cases sized
  by_cases hlt : m < minKept seen
  · have hsame : after (.addWal ⟨m, some size⟩ :: seen) = after seen := by
      refine congrArg (WalSet.mk · _) (funext fun n => ?_)
      simp only [minKept, largest]
      grind
    rw [hsame]
    exact if_pos hlt
  · have hold : (after seen).wals m = (largest m seen).map some := if_neg hlt
    have hnew : after (.addWal ⟨m, some size⟩ :: seen) = { after seen with
        wals := Function.update (after seen).wals m
          (some (some ((largest m seen).elim size (max size)))) } := by
      refine congrArg (WalSet.mk · _) (funext fun n => ?_)
      simp only [minKept, largest, Function.update_apply, after]
      grind
    rw [hnew, addWal, if_neg (show ¬ m < (after seen).minWalNumberToKeep from hlt), hold]
    cases hlargest : largest m seen with
    | none => rfl
    | some synced =>
      simp only [Option.map_some, Option.elim_some, Option.any_some, decide_eq_true_eq]
      split_ifs with hle
      · rw [max_eq_right hle, ← Option.map_some, ← hlargest, ← hold, Function.update_eq_self]
      · rw [max_eq_left (not_le.1 hle).le]

lemma deleteWalsBefore_after (wal : ℕ) :
    (after seen).deleteWalsBefore wal = after (.deleteWalsBefore wal :: seen) := by
  have hafter : after (.deleteWalsBefore wal :: seen) =
    ⟨fun n => if n < max wal (minKept seen) then none else (largest n seen).map some,
      max wal (minKept seen)⟩ := rfl
  rw [hafter, deleteWalsBefore]
  split_ifs with hlt
  · have hle : minKept seen ≤ wal := le_of_lt hlt
    rw [max_eq_left hle]
    exact congrArg (WalSet.mk · wal) (funext fun n => by simp only [after]; grind)
  · rw [max_eq_right (show wal ≤ minKept seen from not_lt.1 hlt)]
    rfl

lemma forEach_apply_after (sized : ∀ wal, .addWal wal ∈ edits → wal.syncedSize.isSome) :
    Rep.forEach apply edits (after seen) = (.ok, after (edits.reverse ++ seen)) := by
  induction edits generalizing seen with
  | nil => rfl
  | cons edit edits ih =>
    have happly : apply edit (after seen) = (.ok, after (edit :: seen)) := by
      cases edit with
      | addWal wal => exact addWal_after (sized wal mem_cons_self)
      | deleteWalsBefore wal => exact congrArg (Status.ok, ·) (deleteWalsBefore_after wal)
    rw [Rep.forEach, happly, reverse_cons, append_assoc]
    exact ih fun wal h => sized wal (mem_cons_of_mem edit h)

lemma after_congr (same : ∀ edit, edit ∈ edits ↔ edit ∈ seen) : after edits = after seen := by
  have hwals : (after edits).wals = (after seen).wals := funext fun n => Option.ext fun synced => by
    simp only [wals_after_eq_some, same]
  have hmin : minKept edits = minKept seen := eq_of_forall_lt_iff fun n => by
    simp only [lt_minKept, same]
  exact WalSet.mk.injEq .. |>.mpr ⟨hwals, hmin⟩

/-- Two replays of the same additions and deletions, in any order and with repetitions, end without
an error in the same set. It maps the logs that no deletion is above to their largest size. -/
theorem replay_order_independent {edits edits' : List WalEdit}
    (same : ∀ edit, edit ∈ edits ↔ edit ∈ edits')
    (sized : ∀ wal, .addWal wal ∈ edits → wal.syncedSize.isSome) :
    ∃ w : WalSet, replay edits = (.ok, w) ∧ replay edits' = (.ok, w) ∧
      ∀ n size, w.wals n = some size ↔ (∀ wal, .deleteWalsBefore wal ∈ edits → wal ≤ n) ∧
        ∃ s, size = some s ∧ IsGreatest {s | .addWal ⟨n, some s⟩ ∈ edits} s := by
  have hreplay : ∀ l, (∀ edit, edit ∈ edits ↔ edit ∈ l) → replay l = (.ok, after edits) := by
    intro l hl
    have hafter : after (l.reverse ++ []) = after edits := after_congr (by simp [hl])
    rw [← hafter]
    exact @forEach_apply_after l [] fun wal h => sized wal ((hl _).2 h)
  exact ⟨after edits, hreplay edits fun _ => .rfl, hreplay edits' same,
    fun n size => wals_after_eq_some⟩

theorem replay_late_addition :
    let edits := [WalEdit.addWal ⟨3, some 20⟩, .deleteWalsBefore 2, .addWal ⟨3, some 10⟩]
    (∀ edit, edit ∈ edits ↔ edit ∈ edits.reverse) ∧
      ∃ w : WalSet, replay edits = (.ok, w) ∧ replay edits.reverse = (.ok, w) :=
  have ⟨w, hw, hw', _⟩ := replay_order_independent (fun _ => mem_reverse.symm) (by simp)
  ⟨fun _ => mem_reverse.symm, w, hw, hw'⟩

end WalSet

end BucketLSM.Manifest
