import BucketLSM.Scan.Forward
import Mathlib.Logic.Relation

/-!
# Scans in both directions

Any sequence of `Seek`, `SeekForPrev`, `SeekToFirst`, `SeekToLast`, `Next` and `Prev` should
leave the range-aware iterator where an iterator over the sorted merge of the level-0 files
would stand. Each call is compared with the call on the merge. `Next` and `Prev` trust the
positions the other open iterators were left at, so a change of direction goes wrong unless
those happen to fit; neither `Prev` nor `SeekForPrev` opens the files it would need.
-/

namespace BucketLSM

open Cursor List

variable {κ : Type} [LinearOrder κ]

/-! ## The calls and what they should do -/

/-- The positioning calls of the iterator. -/
inductive ScanOp (κ : Type)
  | seek (target : κ)
  | seekForPrev (target : κ)
  | seekToFirst
  | seekToLast
  | next
  | prev
deriving DecidableEq, Repr

namespace ScanOp

/-- The call on an iterator over the sorted merge that stands at `pos`. -/
def applyMerged (L : L0Files κ) (pos : Option κ) : ScanOp κ → Option κ
  | seek t => L.merged.find? (t ≤ ·)
  | seekForPrev t => L.merged.reverse.find? (· ≤ t)
  | seekToFirst => L.merged.find? fun _ => true
  | seekToLast => L.merged.reverse.find? fun _ => true
  | next => pos.bind fun k => L.merged.find? (k < ·)
  | prev => pos.bind fun k => L.merged.reverse.find? (· < k)

/-- The call on the range-aware iterator. -/
def apply {L : L0Files κ} (s : L0RangeScanIterator L) : ScanOp κ → L0RangeScanIterator L
  | seek t => L0RangeScanIterator.seek t
  | seekForPrev t => L0RangeScanIterator.seekForPrev t
  | seekToFirst => L0RangeScanIterator.seekToFirst
  | seekToLast => L0RangeScanIterator.seekToLast
  | next => s.next
  | prev => s.prev

end ScanOp

lemma L0Files.merged_isFirst (L : L0Files κ) (p : κ → Bool) :
    IsFirst {k | k ∈ L.keys ∧ p k} (L.merged.find? p) := by
  simpa only [L.mem_merged] using find?_isFirst L.merged_sorted p

lemma L0Files.merged_isLast (L : L0Files κ) (p : κ → Bool) :
    IsLast {k | k ∈ L.keys ∧ p k} (L.merged.reverse.find? p) := by
  simpa only [L.mem_merged] using find?_reverse_isLast L.merged_sorted p

namespace L0File

variable (f : L0File κ) {c k : κ}

lemma mem_of_next (h : f.next c = some k) : k ∈ f.entries ∧ c < k := by
  have hfirst := f.next_isFirst c
  rw [h] at hfirst
  exact hfirst.1

lemma mem_of_prev (h : f.prev c = some k) : k ∈ f.entries ∧ k < c := by
  have hlast := f.prev_isLast c
  rw [h] at hlast
  exact hlast.1

lemma next_eq_none_iff : f.next c = none ↔ ∀ k ∈ f.entries, k ≤ c := by
  simp [next]

end L0File

namespace L0RangeScanIterator

variable {L : L0Files κ} {s : L0RangeScanIterator L} {c q t : κ}

/-! ## Positioning calls -/

lemma key?_seek_iff (t : κ) : (seek t : L0RangeScanIterator L).key? = L.merged.find? (t ≤ ·) ↔
      ∀ q, IsLeast {k | k ∈ L.keys ∧ t ≤ k} q →
        ∃ i, (L.file i).inRange t ∧ q ∈ (L.file i).entries := by
  have hahead : ((cleared.addOverlappingFiles t : L0RangeScanIterator L).moveAll
      (L0File.seek · t)).Ahead (t ≤ ·) := ahead_moveAll _ fun f => f.seek_isFirst t
  have hmerged := L.merged_isFirst (t ≤ ·)
  simp only [decide_eq_true_eq] at hmerged
  have hopen : ∀ k ∈ ((cleared.addOverlappingFiles t : L0RangeScanIterator L).moveAll
      (L0File.seek · t)).openKeys (t ≤ ·), k ∈ {k | k ∈ L.keys ∧ t ≤ k} := by
    rintro k ⟨i, -, hk, htk⟩
    exact ⟨⟨i, hk⟩, htk⟩
  refine (hahead.findSmallest.eq_iff hmerged hopen).trans ?_
  refine forall_congr' fun q => imp_congr_right fun hq => ?_
  simp only [openKeys, opened_moveAll, (addOverlappingFiles_cleared t).2, Set.mem_ofPred_eq]
  constructor
  · rintro ⟨i, hi, hqi, -⟩
    exact ⟨i, hi, hqi⟩
  · rintro ⟨i, hi, hqi⟩
    exact ⟨i, hi, hqi, hq.1.2⟩

lemma key?_seekForPrev_iff (t : κ) :
    (seekForPrev t : L0RangeScanIterator L).key? = L.merged.reverse.find? (· ≤ t) ↔
      ∀ q, IsGreatest {k | k ∈ L.keys ∧ k ≤ t} q →
        ∃ i, (L.file i).inRange t ∧ q ∈ (L.file i).entries := by
  have hbehind : ((cleared.addOverlappingFiles t : L0RangeScanIterator L).moveAll
      (L0File.seekForPrev · t)).Behind (· ≤ t) := behind_moveAll _ fun f => f.seekForPrev_isLast t
  have hmerged := L.merged_isLast (· ≤ t)
  simp only [decide_eq_true_eq] at hmerged
  have hopen : ∀ k ∈ ((cleared.addOverlappingFiles t : L0RangeScanIterator L).moveAll
      (L0File.seekForPrev · t)).openKeys (· ≤ t), k ∈ {k | k ∈ L.keys ∧ k ≤ t} := by
    rintro k ⟨i, -, hk, htk⟩
    exact ⟨⟨i, hk⟩, htk⟩
  refine (hbehind.findLargest.eq_iff hmerged hopen).trans ?_
  refine forall_congr' fun q => imp_congr_right fun hq => ?_
  simp only [openKeys, opened_moveAll, (addOverlappingFiles_cleared t).2, Set.mem_ofPred_eq]
  constructor
  · rintro ⟨i, hi, hqi, -⟩
    exact ⟨i, hi, hqi⟩
  · rintro ⟨i, hi, hqi⟩
    exact ⟨i, hi, hqi, hq.1.2⟩

lemma key?_seekToFirst :
    (seekToFirst : L0RangeScanIterator L).key? = L.merged.find? fun _ => true := by
  have hahead : ((cleared.activateAll : L0RangeScanIterator L).moveAll L0File.seekToFirst).Ahead
      (fun _ => True) := ahead_moveAll _ fun f => by simpa using f.seekToFirst_isFirst
  have hset : ((cleared.activateAll : L0RangeScanIterator L).moveAll L0File.seekToFirst).openKeys
      (fun _ => True) = {k | k ∈ L.keys ∧ true} := by
    ext k
    simp [openKeys, activateAll_cleared.2, L0Files.keys]
  exact hahead.findSmallest.unique (hset ▸ L.merged_isFirst fun _ => true)

lemma key?_seekToLast :
    (seekToLast : L0RangeScanIterator L).key? = L.merged.reverse.find? fun _ => true := by
  have hbehind : ((cleared.activateAll : L0RangeScanIterator L).moveAll L0File.seekToLast).Behind
      (fun _ => True) := behind_moveAll _ fun f => by simpa using f.seekToLast_isLast
  have hset : ((cleared.activateAll : L0RangeScanIterator L).moveAll L0File.seekToLast).openKeys
      (fun _ => True) = {k | k ∈ L.keys ∧ true} := by
    ext k
    simp [openKeys, activateAll_cleared.2, L0Files.keys]
  exact hbehind.findLargest.unique (hset ▸ L.merged_isLast fun _ => true)

/-! ## `Next` and `Prev` -/

/-- The keys the open iterators other than the current one stand on. -/
def otherPositions (s : L0RangeScanIterator L) : Set κ :=
  {k | ∃ j a, s.active[j]? = some a ∧ j ≠ s.currentIndex ∧ a.pos = some k}

variable {a : ActiveIterator L.files.length κ}

lemma positions_moveCurrent (h : s.active[s.currentIndex]? = some a) (pos : Option κ) :
    (s.moveCurrent a pos).positions = s.otherPositions ∪ {k | pos = some k} := by
  have hlt := (List.getElem?_eq_some_iff.1 h).1
  ext k
  simp only [positions, otherPositions, Set.mem_union, Set.mem_ofPred_eq]
  constructor
  · rintro ⟨b, hb, hk⟩
    obtain ⟨j, hj⟩ := getElem?_of_mem hb
    by_cases hjc : j = s.currentIndex
    · subst hjc
      obtain rfl : { a with pos := pos } = b := by simpa [moveCurrent, hlt] using hj
      exact .inr hk
    · rw [moveCurrent, getElem?_set_ne (Ne.symm hjc)] at hj
      exact .inl ⟨j, b, hj, hjc, hk⟩
  · rintro (⟨j, b, hj, hjc, hk⟩ | hk)
    · refine ⟨b, mem_of_getElem? (i := j) ?_, hk⟩
      rw [moveCurrent, getElem?_set_ne (Ne.symm hjc)]
      exact hj
    · exact ⟨{ a with pos := pos }, mem_set hlt _, hk⟩

/-- The keys the open iterators stand on after the current one, on file `i`, has moved
forward from `c`. -/
def nextPositions (s : L0RangeScanIterator L) (i : Fin L.files.length) (c : κ) : Set κ :=
  s.otherPositions ∪ {k | (L.file i).next c = some k}

lemma nextPositions_eq_empty_iff (i : Fin L.files.length) :
    s.nextPositions i c = ∅ ↔ s.otherPositions = ∅ ∧ ∀ k ∈ (L.file i).entries, k ≤ c := by
  rw [nextPositions, Set.union_empty_iff, ← L0File.next_eq_none_iff]
  refine and_congr_right fun _ => ⟨fun h => ?_, fun h => by simp [h]⟩
  exact Option.eq_none_iff_forall_ne_some.2 fun k hk =>
    Set.notMem_empty k (h ▸ (show k ∈ {k | (L.file i).next c = some k} from hk))

lemma exists_isLeast_nextPositions (ha : s.active[s.currentIndex]? = some a)
    (hne : s.nextPositions a.fileIndex c ≠ ∅) : ∃ p, IsLeast (s.nextPositions a.fileIndex c) p := by
  have hfirst := (s.moveCurrent a ((L.file a.fileIndex).next c)).findSmallest_isFirst
  rw [show {k | ∃ b ∈ (s.moveCurrent a ((L.file a.fileIndex).next c)).active, b.pos = some k} =
    s.nextPositions a.fileIndex c from positions_moveCurrent ha _] at hfirst
  cases h : (s.moveCurrent a ((L.file a.fileIndex).next c)).findSmallest.key? with
  | none =>
    rw [h] at hfirst
    exact absurd (isFirst_none.1 hfirst) hne
  | some p =>
    rw [h] at hfirst
    exact ⟨p, hfirst⟩

/-- Where `Next` ends up: on the first key the open iterators stand on after the current one
has moved, or, if they are all exhausted, on the first key of the next file in range order. -/
lemma key?_next (ha : s.active[s.currentIndex]? = some a) (hpos : a.pos = some c) :
    (∀ p, IsLeast (s.nextPositions a.fileIndex c) p → s.next.key? = some p) ∧
    (s.nextPositions a.fileIndex c = ∅ →
      (∀ b, IsNextFile L s.opened c b → s.next.key? = (L.file b).entries.head?) ∧
      ((∀ b, ¬ IsNextFile L s.opened c b) → s.next.key? = none)) := by
  have hopen := opened_moveCurrent ha ((L.file a.fileIndex).next c)
  rw [nextPositions, ← positions_moveCurrent ha]
  simp only [next, ha, hpos]
  generalize s.moveCurrent a ((L.file a.fileIndex).next c) = s₁ at hopen
  have hfirst : IsFirst s₁.positions s₁.findSmallest.key? := s₁.findSmallest_isFirst
  constructor
  · intro p hp
    have hkey : s₁.findSmallest.key? = some p := hfirst.unique (isFirst_some.2 hp)
    simp only [hkey]
    exact key?_maybeAddMoreFilesForward hkey hp
  · intro hempty
    have hkey : s₁.findSmallest.key? = none := hfirst.unique (isFirst_none.2 hempty)
    have hbest := bestFile_spec (s := s₁.findSmallest) c
    rw [opened_findSmallest, hopen] at hbest
    simp only [hkey, tryActivateNextFile]
    cases hbf : s₁.findSmallest.bestFile c with
    | none =>
      rw [hbf] at hbest
      exact ⟨fun b hb => absurd hb.1.2 (hbest b hb.1.1), fun _ => hkey⟩
    | some b =>
      rw [hbf] at hbest
      refine ⟨fun b' hb' => ?_, fun hno => absurd hbest (hno b)⟩
      obtain rfl := hbest.unique hb'
      dsimp only
      -- only the new iterator has a position
      have hpositions : (s₁.findSmallest.activateAt b (L.file b).seekToFirst).positions =
          {k | (L.file b).entries.head? = some k} := by
        ext k
        constructor
        · rintro ⟨x, hx, hk⟩
          rcases mem_activateAt.1 hx with hx | rfl
          · have hmem : k ∈ s₁.positions := ⟨x, hx, hk⟩
            rw [hempty] at hmem
            exact absurd hmem (Set.notMem_empty k)
          · exact hk
        · intro hk
          exact ⟨⟨b, (L.file b).seekToFirst⟩, mem_activateAt.2 (.inr rfl), hk⟩
      have hfirst₂ := (s₁.findSmallest.activateAt b (L.file b).seekToFirst).findSmallest_isFirst
      rw [show {k | ∃ x ∈ (s₁.findSmallest.activateAt b (L.file b).seekToFirst).active,
        x.pos = some k} = _ from hpositions] at hfirst₂
      generalize s₁.findSmallest.activateAt b (L.file b).seekToFirst = s₂ at hfirst₂ hpositions
      cases hhead : (L.file b).entries.head? with
      | none =>
        have hkey₂ : s₂.findSmallest.key? = none :=
          hfirst₂.unique (isFirst_none.2 (by simp [hhead]))
        simp only [hkey₂]
      | some q =>
        have hleast : IsLeast {k | (L.file b).entries.head? = some k} q :=
          ⟨hhead, fun k hk => (Option.some.inj (hhead.symm.trans hk)).le⟩
        have hkey₂ : s₂.findSmallest.key? = some q := hfirst₂.unique hleast
        simp only [hkey₂]
        refine key?_maybeAddMoreFilesForward hkey₂ ?_
        rw [show s₂.findSmallest.positions = _ from hpositions]
        exact hleast

/-- `Next` at `c`, with the current iterator on file `i`, gets to the following key of the
level: no other open iterator stands before it and one of them, or the current file, has it;
or the open files are exhausted and the next file in range order starts with it. At the last
key of the level no other iterator may stand anywhere. -/
def NextReaches (s : L0RangeScanIterator L) (i : Fin L.files.length) (c : κ) : Prop :=
  (∀ q, IsLeast {k | k ∈ L.keys ∧ c < k} q →
    ((∀ k ∈ s.otherPositions, q ≤ k) ∧ (q ∈ s.otherPositions ∨ q ∈ (L.file i).entries)) ∨
    (s.otherPositions = ∅ ∧ (∀ k ∈ (L.file i).entries, k ≤ c) ∧
      ∃ b, IsNextFile L s.opened c b ∧ (L.file b).entries.head? = some q)) ∧
  ((∀ k ∈ L.keys, k ≤ c) → s.otherPositions = ∅)

/-- `Prev` at `c`, with the current iterator on file `i`, gets to the preceding key of the
level: no other open iterator stands after it and one of them, or the current file, has it.
At the first key of the level no other iterator may stand anywhere. -/
def PrevReaches (s : L0RangeScanIterator L) (i : Fin L.files.length) (c : κ) : Prop :=
  (∀ q, IsGreatest {k | k ∈ L.keys ∧ k < c} q →
    (∀ k ∈ s.otherPositions, k ≤ q) ∧ (q ∈ s.otherPositions ∨ q ∈ (L.file i).entries)) ∧
  ((∀ k ∈ L.keys, c ≤ k) → s.otherPositions = ∅)

section

variable (ha : s.active[s.currentIndex]? = some a) (hpos : a.pos = some c)

include ha hpos

lemma key?_next_eq_none_iff
    (hlast : ∀ k ∈ L.keys, k ≤ c) : s.next.key? = none ↔ s.otherPositions = ∅ := by
  obtain ⟨hsome, hnone⟩ := key?_next ha hpos
  have hempty : s.nextPositions a.fileIndex c = ∅ ↔ s.otherPositions = ∅ := by
    rw [nextPositions_eq_empty_iff, and_iff_left fun k hk => hlast k ⟨_, hk⟩]
  rw [← hempty]
  constructor
  · intro hkey
    by_contra hne
    obtain ⟨p, hp⟩ := exists_isLeast_nextPositions ha hne
    rw [hsome p hp] at hkey
    exact absurd hkey (by simp)
  · intro h
    by_cases hb : ∃ b, IsNextFile L s.opened c b
    · -- a file that starts after the last key has no key at all
      obtain ⟨b, hb⟩ := hb
      rw [(hnone h).1 b hb, head?_eq_none_iff, eq_nil_iff_forall_not_mem]
      intro k hk
      exact absurd (lt_of_lt_of_le hb.1.2 ((L.file b).bounds k hk).1) (not_lt.2 (hlast k ⟨b, hk⟩))
    · exact (hnone h).2 fun b hb' => hb ⟨b, hb'⟩

/-- `Next` at a key that another key `q` of the level follows. -/
lemma key?_next_eq_some_iff (hq : IsLeast {k | k ∈ L.keys ∧ c < k} q) : s.next.key? = some q ↔
      ((∀ k ∈ s.otherPositions, q ≤ k) ∧
        (q ∈ s.otherPositions ∨ q ∈ (L.file a.fileIndex).entries)) ∨
      (s.otherPositions = ∅ ∧ (∀ k ∈ (L.file a.fileIndex).entries, k ≤ c) ∧
        ∃ b, IsNextFile L s.opened c b ∧ (L.file b).entries.head? = some q) := by
  obtain ⟨hsome, hnone⟩ := key?_next ha hpos
  rw [← and_assoc, ← nextPositions_eq_empty_iff]
  by_cases hempty : s.nextPositions a.fileIndex c = ∅
  · -- the open files are exhausted
    have hleft : ¬ ((∀ k ∈ s.otherPositions, q ≤ k) ∧
        (q ∈ s.otherPositions ∨ q ∈ (L.file a.fileIndex).entries)) := by
      obtain ⟨ho, hle⟩ := (nextPositions_eq_empty_iff _).1 hempty
      rintro ⟨-, hqo | hqi⟩
      · rw [ho] at hqo
        exact hqo
      · exact absurd hq.1.2 (not_lt.2 (hle q hqi))
    rw [or_iff_right hleft, and_iff_right hempty]
    constructor
    · intro hkey
      by_cases hb : ∃ b, IsNextFile L s.opened c b
      · obtain ⟨b, hb⟩ := hb
        exact ⟨b, hb, ((hnone hempty).1 b hb).symm.trans hkey⟩
      · rw [(hnone hempty).2 fun b hb' => hb ⟨b, hb'⟩] at hkey
        exact absurd hkey (by simp)
    · rintro ⟨b, hb, hhead⟩
      rw [(hnone hempty).1 b hb, hhead]
  · obtain ⟨p, hp⟩ := exists_isLeast_nextPositions ha hempty
    rw [hsome p hp, or_iff_left fun h => hempty h.1]
    constructor
    · intro hpq
      obtain rfl := Option.some.inj hpq
      refine ⟨fun k hk => hp.2 (.inl hk), hp.1.imp_right fun h => ?_⟩
      exact ((L.file a.fileIndex).mem_of_next h).1
    · rintro ⟨hle, hmem⟩
      have hqP : IsLeast (s.nextPositions a.fileIndex c) q := by
        refine ⟨hmem.imp_right fun hqi => ?_, fun k hk => ?_⟩
        · -- the current file offers `q`, the least key of the whole level after `c`
          exact ((L.file a.fileIndex).next_isFirst c).unique
            ⟨⟨hqi, hq.1.2⟩, fun k hk => hq.2 ⟨⟨_, hk.1⟩, hk.2⟩⟩
        · rcases hk with hk | hk
          · exact hle k hk
          · obtain ⟨hki, hck⟩ := (L.file a.fileIndex).mem_of_next hk
            exact hq.2 ⟨⟨_, hki⟩, hck⟩
      rw [hp.unique hqP]

/-- `Next` moves like an iterator over the merge exactly when the condition holds. -/
lemma key?_next_iff : s.next.key? = L.merged.find? (c < ·) ↔ s.NextReaches a.fileIndex c := by
  have hmerged := L.merged_isFirst (c < ·)
  simp only [decide_eq_true_eq] at hmerged
  cases hm : L.merged.find? fun k => decide (c < k) with
  | none =>
    rw [hm, isFirst_none] at hmerged
    have hlast : ∀ k ∈ L.keys, k ≤ c := fun k hk => not_lt.1 fun hck =>
      Set.notMem_empty k (hmerged ▸ (show k ∈ {k | k ∈ L.keys ∧ c < k} from ⟨hk, hck⟩))
    rw [key?_next_eq_none_iff ha hpos hlast]
    refine ⟨fun h => ⟨fun q hq => ?_, fun _ => h⟩, fun h => h.2 hlast⟩
    exact absurd hq.1.2 (not_lt.2 (hlast q hq.1.1))
  | some q =>
    rw [hm, isFirst_some] at hmerged
    rw [key?_next_eq_some_iff ha hpos hmerged]
    refine ⟨fun h => ⟨fun q' hq' => ?_, fun hlast => ?_⟩, fun h => h.1 q hmerged⟩
    · rwa [hq'.unique hmerged]
    · exact absurd hmerged.1.2 (not_lt.2 (hlast q hmerged.1.1))

/-- `Prev` moves like an iterator over the merge exactly when the condition holds. -/
lemma key?_prev_iff :
    s.prev.key? = L.merged.reverse.find? (· < c) ↔ s.PrevReaches a.fileIndex c := by
  have hcur := (L.file a.fileIndex).prev_isLast c
  have hmerged := L.merged_isLast (· < c)
  simp only [decide_eq_true_eq] at hmerged
  have hkey : IsLast (s.otherPositions ∪ {k | (L.file a.fileIndex).prev c = some k})
      s.prev.key? := by
    rw [← positions_moveCurrent ha]
    simp only [prev, ha, hpos]
    exact findLargest_isLast _
  have hcur_mem : ∀ k, (L.file a.fileIndex).prev c = some k →
      k ∈ (L.file a.fileIndex).entries ∧ k < c := fun k => (L.file a.fileIndex).mem_of_prev
  cases hm : L.merged.reverse.find? fun k => decide (k < c) with
  | none =>
    rw [hm, isLast_none] at hmerged
    have hfirst : ∀ k ∈ L.keys, c ≤ k := fun k hk => not_lt.1 fun hkc => by
      have hmem : k ∈ {k | k ∈ L.keys ∧ k < c} := ⟨hk, hkc⟩
      rw [hmerged] at hmem
      exact hmem
    have hnone : {k | (L.file a.fileIndex).prev c = some k} = ∅ :=
      Set.eq_empty_of_forall_notMem fun k hk =>
        absurd (hcur_mem k hk).2 (not_lt.2 (hfirst k ⟨_, (hcur_mem k hk).1⟩))
    rw [hnone, Set.union_empty] at hkey
    constructor
    · intro h
      rw [h, isLast_none] at hkey
      refine ⟨fun q hq => ?_, fun _ => hkey⟩
      exact absurd hq.1.2 (not_lt.2 (hfirst q hq.1.1))
    · intro h
      exact hkey.unique (isLast_none.2 (h.2 hfirst))
  | some q =>
    rw [hm, isLast_some] at hmerged
    constructor
    · intro h
      rw [h, isLast_some] at hkey
      refine ⟨fun q' hq' => ?_, fun hfirst => ?_⟩
      · obtain rfl := hq'.unique hmerged
        exact ⟨fun k hk => hkey.2 (.inl hk), hkey.1.imp_right fun h => (hcur_mem _ h).1⟩
      · exact absurd hmerged.1.2 (not_lt.2 (hfirst q hmerged.1.1))
    · intro h
      obtain ⟨hle, hq⟩ := h.1 q hmerged
      refine hkey.unique ⟨hq.imp_right fun hqi => ?_, fun k hk => ?_⟩
      · exact hcur.unique ⟨⟨hqi, hmerged.1.2⟩, fun k hk => hmerged.2 ⟨⟨_, hk.1⟩, hk.2⟩⟩
      · rcases hk with hk | hk
        · exact hle k hk
        · exact hmerged.2 ⟨⟨_, (hcur_mem k hk).1⟩, (hcur_mem k hk).2⟩

end

end L0RangeScanIterator

/-! ## Runs of calls -/

open L0RangeScanIterator

namespace ScanOp

variable {L : L0Files κ}

/-- The condition, on the level and on the state before the call, under which the call moves
like one on an iterator over the merge. `Next` and `Prev` are only called while valid. -/
def Reaches (s : L0RangeScanIterator L) : ScanOp κ → Prop
  | seek t => ∀ q, IsLeast {k | k ∈ L.keys ∧ t ≤ k} q →
      ∃ i, (L.file i).inRange t ∧ q ∈ (L.file i).entries
  | seekForPrev t => ∀ q, IsGreatest {k | k ∈ L.keys ∧ k ≤ t} q →
      ∃ i, (L.file i).inRange t ∧ q ∈ (L.file i).entries
  | seekToFirst => True
  | seekToLast => True
  | next => ∃ a c, s.active[s.currentIndex]? = some a ∧ a.pos = some c ∧
      s.NextReaches a.fileIndex c
  | prev => ∃ a c, s.active[s.currentIndex]? = some a ∧ a.pos = some c ∧
      s.PrevReaches a.fileIndex c

lemma key?_apply {s : L0RangeScanIterator L} (op : ScanOp κ) (h : op.Reaches s) :
    (op.apply s).key? = op.applyMerged L s.key? := by
  cases op with
  | seek t => exact (key?_seek_iff t).2 h
  | seekForPrev t => exact (key?_seekForPrev_iff t).2 h
  | seekToFirst => exact key?_seekToFirst
  | seekToLast => exact key?_seekToLast
  | next =>
    obtain ⟨a, c, ha, hpos, hreach⟩ := h
    have hkey : s.key? = some c := by simp [key?, ha, hpos]
    show s.next.key? = s.key?.bind _
    rw [hkey]
    exact (key?_next_iff ha hpos).2 hreach
  | prev =>
    obtain ⟨a, c, ha, hpos, hreach⟩ := h
    have hkey : s.key? = some c := by simp [key?, ha, hpos]
    show s.prev.key? = s.key?.bind _
    rw [hkey]
    exact (key?_prev_iff ha hpos).2 hreach

end ScanOp

/-- A call made side by side on the range-aware iterator and on one over the merge; `Next`
and `Prev` only while the former is valid. -/
def ScanStep (L : L0Files κ) (x y : L0RangeScanIterator L × Option κ) : Prop :=
  ∃ op : ScanOp κ, (op = .next ∨ op = .prev → x.1.valid) ∧ y = (op.apply x.1, op.applyMerged L x.2)

/-- A call that meets its condition. -/
def ReachingStep (L : L0Files κ) (x y : L0RangeScanIterator L × Option κ) : Prop :=
  ∃ op : ScanOp κ, op.Reaches x.1 ∧ y = (op.apply x.1, op.applyMerged L x.2)

/-- After any sequence of calls that meet their conditions, the range-aware iterator stands
where an iterator over the sorted merge stands. -/
theorem scan_follows_merge {L : L0Files κ} {s : L0RangeScanIterator L} {pos : Option κ}
    (hrun : Relation.ReflTransGen (ReachingStep L) (cleared, none) (s, pos)) : s.key? = pos := by
  suffices h : ∀ x, Relation.ReflTransGen (ReachingStep L) (cleared, none) x → x.1.key? = x.2 from
    h (s, pos) hrun
  intro x hx
  induction hx with
  | refl => rfl
  | tail _ hstep ih =>
    obtain ⟨op, hop, rfl⟩ := hstep
    rw [op.key?_apply hop, ih]

/-- A level of two files, `"a"` in the first and `"b"` in the second. -/
def twoFileLevel : L0Files (InternalKey Slice) :=
  ⟨[.single ⟨[97], 1, .value⟩, .single ⟨[98], 2, .value⟩], by decide⟩

/-- `SeekToFirst` and `Next` on the two files end on `"b"`, and a `SeekToLast` agrees. -/
theorem scan_follows_merge_to_second_file :
    (seekToFirst : L0RangeScanIterator twoFileLevel).next.key? =
      (seekToLast : L0RangeScanIterator twoFileLevel).key? := by
  have hfirst : ReachingStep twoFileLevel (cleared, none)
      (seekToFirst, ScanOp.applyMerged twoFileLevel none .seekToFirst) :=
    ⟨.seekToFirst, trivial, rfl⟩
  have hnext : ReachingStep twoFileLevel
      (seekToFirst, ScanOp.applyMerged twoFileLevel none .seekToFirst)
      (seekToFirst.next, ScanOp.applyMerged twoFileLevel
        (ScanOp.applyMerged twoFileLevel none .seekToFirst) .next) :=
    ⟨.next, ⟨⟨⟨0, by decide⟩, some ⟨[97], 1, .value⟩⟩, ⟨[97], 1, .value⟩, by decide +kernel, rfl,
      (key?_next_iff (by decide +kernel) rfl).1 (by decide +kernel)⟩, rfl⟩
  have hlast : ReachingStep twoFileLevel (cleared, none)
      (seekToLast, ScanOp.applyMerged twoFileLevel none .seekToLast) :=
    ⟨.seekToLast, trivial, rfl⟩
  rw [scan_follows_merge ((Relation.ReflTransGen.single hfirst).tail hnext),
    scan_follows_merge (Relation.ReflTransGen.single hlast)]
  decide +kernel

/-- After `SeekToFirst` and `Next` the iterator of the first file is exhausted and is not
brought back: `Prev` ends the scan instead of returning to `"a"`. -/
theorem prev_after_next_loses_position :
    ∃ x : L0RangeScanIterator twoFileLevel × Option (InternalKey Slice),
      Relation.ReflTransGen (ScanStep twoFileLevel) (cleared, none) x ∧
      x.1.key? = none ∧ x.2 = some ⟨[97], 1, .value⟩ := by
  have hfirst : ScanStep twoFileLevel (cleared, none) (seekToFirst, some ⟨[97], 1, .value⟩) :=
    ⟨.seekToFirst, by simp, Prod.ext rfl (by decide +kernel)⟩
  have hnext : ScanStep twoFileLevel (seekToFirst, some ⟨[97], 1, .value⟩)
      (seekToFirst.next, some ⟨[98], 2, .value⟩) :=
    ⟨.next, fun _ => by decide +kernel, Prod.ext rfl (by decide +kernel)⟩
  have hprev : ScanStep twoFileLevel (seekToFirst.next, some ⟨[98], 2, .value⟩)
      (seekToFirst.next.prev, some ⟨[97], 1, .value⟩) :=
    ⟨.prev, fun _ => by decide +kernel, Prod.ext rfl (by decide +kernel)⟩
  exact ⟨_, ((Relation.ReflTransGen.single hfirst).tail hnext).tail hprev, by decide +kernel, rfl⟩

end BucketLSM
