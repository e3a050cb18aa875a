import BucketLSM.Scan.Positions

/-!
# Forward scans of level 0

A forward scan is correct when it reads the sorted merge of the level-0 files from its
starting point on, each key once. `SeekToFirst` opens every file, and the scan it starts is
always correct. `Seek` opens only the files whose range contains the target, and further
files are opened as the scan enters their ranges; the scan is correct exactly for the levels
and targets described by `ForwardComplete`.
-/

namespace BucketLSM

open Cursor List

variable {κ : Type} [LinearOrder κ]

namespace L0RangeScanIterator

variable {L : L0Files κ} {s : L0RangeScanIterator L} {c q : κ}

/-- The scan stands on `c` and every open table iterator on the first key of its file from
`c` on. A forward scan is always in such a state, which `c` and the open files determine. -/
structure ForwardAt (s : L0RangeScanIterator L) (c : κ) : Prop where
  nodup : s.Nodup
  ahead : s.Ahead (c ≤ ·)
  key : s.key? = some c

lemma Ahead.congr {p p' : κ → Prop} (h : s.Ahead p)
    (hp : ∀ i ∈ s.opened, ∀ k ∈ (L.file i).entries, (p k ↔ p' k)) : s.Ahead p' := by
  intro a ha
  have hset : {k | k ∈ (L.file a.fileIndex).entries ∧ p' k} =
      {k | k ∈ (L.file a.fileIndex).entries ∧ p k} := by
    ext k
    exact and_congr_right fun hk => (hp _ ⟨a, ha, rfl⟩ k hk).symm
  rw [hset]
  exact h a ha

lemma exists_current (h : s.key? = some c) :
    ∃ a, s.active[s.currentIndex]? = some a ∧ a.pos = some c := by
  simpa [key?, Option.bind_eq_some_iff] using h

variable {a : ActiveIterator L.files.length κ} {pos : Option κ} {rest : List κ}

/-! ## Opening files at the current key -/

lemma mem_activateAt {i : Fin L.files.length} :
    a ∈ (s.activateAt i pos).active ↔ a ∈ s.active ∨ a = ⟨i, pos⟩ := by
  simp [activateAt]

lemma ahead_activateAt {p : κ → Prop} (h : s.Ahead p) {i : Fin L.files.length}
    (hpos : IsFirst {k | k ∈ (L.file i).entries ∧ p k} pos) : (s.activateAt i pos).Ahead p := by
  intro a ha
  rcases mem_activateAt.1 ha with ha | rfl
  · exact h a ha
  · exact hpos

/-- The loop of `MaybeAddMoreFilesForward` opens the files that have the key in range, each
at its first key from there on, and touches no other iterator. -/
lemma foldl_maybeAddFile (l : List (Fin L.files.length)) (r : L0RangeScanIterator L × Bool) :
    (r.1.Nodup → (l.foldl (maybeAddFile q) r).1.Nodup) ∧
      (l.foldl (maybeAddFile q) r).1.opened = r.1.opened ∪ {i | i ∈ l ∧ (L.file i).inRange q} ∧
      (∀ a ∈ r.1.active, a ∈ (l.foldl (maybeAddFile q) r).1.active) ∧
      (∀ a ∈ (l.foldl (maybeAddFile q) r).1.active,
        a ∈ r.1.active ∨ a.pos = (L.file a.fileIndex).seek q) ∧
      ((l.foldl (maybeAddFile q) r).2 = false → l.foldl (maybeAddFile q) r = r) := by
  induction l generalizing r with
  | nil => exact ⟨id, by simp, fun _ => id, fun _ => .inl, fun _ => rfl⟩
  | cons i l ih =>
    rw [foldl_cons, union_mem_cons]
    by_cases hr : (L.file i).inRange q
    · by_cases hact : i ∈ r.1.opened
      · have hstep : maybeAddFile q r i = r := by simp [maybeAddFile, hact]
        rw [hstep, if_pos hr, Set.insert_eq_of_mem hact]
        exact ih r
      · have hstep : maybeAddFile q r i = (r.1.activateAt i ((L.file i).seek q), true) := by
          simp [maybeAddFile, hact, hr]
        rw [hstep, if_pos hr, ← opened_activateAt r.1 i ((L.file i).seek q)]
        obtain ⟨h1, h2, h3, h4, h5⟩ := ih (r.1.activateAt i ((L.file i).seek q), true)
        refine ⟨fun hn => h1 (r.1.nodup_activateAt hn hact _), h2,
          fun a ha => h3 a (mem_activateAt.2 (.inl ha)), fun a ha => ?_, fun h => ?_⟩
        · rcases h4 a ha with ha | ha
          · rcases mem_activateAt.1 ha with ha | rfl
            · exact .inl ha
            · exact .inr rfl
          · exact .inr ha
        · rw [h5 h] at h
          exact absurd h (by simp)
    · have hstep : maybeAddFile q r i = r := by simp [maybeAddFile, hr]
      rw [hstep, if_neg hr]
      exact ih r

/-- The keys the open iterators stand on. -/
def positions (s : L0RangeScanIterator L) : Set κ := {k | ∃ a ∈ s.active, a.pos = some k}

/-- `MaybeAddMoreFilesForward` opens the files that have the current key in range. -/
lemma opened_maybeAddMoreFilesForward (s : L0RangeScanIterator L) (q : κ) :
    (s.maybeAddMoreFilesForward q).opened = s.opened ∪ {i | (L.file i).inRange q} := by
  obtain ⟨-, ho, -⟩ := foldl_maybeAddFile (q := q) (finRange L.files.length) (s, false)
  unfold maybeAddMoreFilesForward
  dsimp only
  split_ifs <;> simpa using ho

/-- `MaybeAddMoreFilesForward` stays on the current key, if no iterator stands before it. -/
lemma key?_maybeAddMoreFilesForward (hkey : s.key? = some q) (hq : IsLeast s.positions q) :
    (s.maybeAddMoreFilesForward q).key? = some q := by
  obtain ⟨-, -, hkeep, hnew, hsame⟩ :=
    foldl_maybeAddFile (q := q) (finRange L.files.length) (s, false)
  unfold maybeAddMoreFilesForward
  generalize (finRange L.files.length).foldl (maybeAddFile q) (s, false) = r
    at hkeep hnew hsame
  cases hr : r.2 with
  | false =>
    obtain rfl := hsame hr
    exact hkey
  | true =>
    simp only [hr, if_true]
    refine r.1.findSmallest_isFirst.unique ⟨?_, fun k ⟨a, ha, hk⟩ => ?_⟩
    · obtain ⟨a, ha, hpos⟩ := hq.1
      exact ⟨a, hkeep a ha, hpos⟩
    · rcases hnew a ha with ha | ha
      · exact hq.2 ⟨a, ha, hk⟩
      · -- a new iterator stands at or after `q`
        have hfirst := (L.file a.fileIndex).seek_isFirst q
        rw [← ha, hk] at hfirst
        exact hfirst.1.2

/-- A forward scan that has entered the ranges of further files opens them and goes on. -/
lemma ForwardAt.maybeAddMoreFilesForward (h : s.ForwardAt q) :
    (s.maybeAddMoreFilesForward q).ForwardAt q := by
  obtain ⟨hn, -, -, hnew, -⟩ :=
    foldl_maybeAddFile (q := q) (finRange L.files.length) (s, false)
  have hahead : ((finRange L.files.length).foldl (maybeAddFile q) (s, false)).1.Ahead
      (q ≤ ·) := fun a ha => by
    rcases hnew a ha with ha | ha
    · exact h.ahead a ha
    · rw [ha]
      exact (L.file a.fileIndex).seek_isFirst q
  refine ⟨?_, ?_, key?_maybeAddMoreFilesForward h.key ⟨?_, ?_⟩⟩
  · unfold L0RangeScanIterator.maybeAddMoreFilesForward
    dsimp only
    split_ifs <;> exact hn h.nodup
  · unfold L0RangeScanIterator.maybeAddMoreFilesForward
    dsimp only
    split_ifs <;> exact hahead
  · obtain ⟨a, ha, hpos⟩ := exists_current h.key
    exact ⟨a, mem_of_getElem? ha, hpos⟩
  · rintro k ⟨a, ha, hk⟩
    have hfirst := h.ahead a ha
    rw [hk] at hfirst
    exact hfirst.1.2

/-! ## Moving the current iterator -/

section

variable (h : s.active[s.currentIndex]? = some a)

include h

lemma map_fileIndex_moveCurrent (pos : Option κ) :
    (s.moveCurrent a pos).active.map ActiveIterator.fileIndex =
      s.active.map ActiveIterator.fileIndex := by
  have hget : (s.active.map ActiveIterator.fileIndex)[s.currentIndex]? = some a.fileIndex := by
    simp [h]
  obtain ⟨hlt, hval⟩ := List.getElem?_eq_some_iff.1 hget
  simp only [moveCurrent, map_set]
  rw [← hval, set_getElem_self]

lemma opened_moveCurrent (pos : Option κ) : (s.moveCurrent a pos).opened = s.opened := by
  have hmap := map_fileIndex_moveCurrent h pos
  ext i
  have hiff : ∀ s : L0RangeScanIterator L,
      i ∈ s.opened ↔ i ∈ s.active.map ActiveIterator.fileIndex := fun s => by simp [opened]
  rw [hiff, hiff, hmap]

lemma nodup_moveCurrent (hn : s.Nodup) (pos : Option κ) : (s.moveCurrent a pos).Nodup := by
  unfold Nodup
  rw [map_fileIndex_moveCurrent h pos]
  exact hn

/-- The open iterators after the current one has moved: it stands at its new position, the
iterators of the other files where they stood. -/
lemma mem_moveCurrent {b : ActiveIterator L.files.length κ} (hn : s.Nodup) :
    b ∈ (s.moveCurrent a pos).active ↔
      b = { a with pos := pos } ∨ b ∈ s.active ∧ b.fileIndex ≠ a.fileIndex := by
  have hlt := (List.getElem?_eq_some_iff.1 h).1
  have hinj : ∀ {j : ℕ} {b : ActiveIterator L.files.length κ}, s.active[j]? = some b →
      b.fileIndex = a.fileIndex → j = s.currentIndex := by
    intro j b hb heq
    have hjlt := (List.getElem?_eq_some_iff.1 hb).1
    refine (List.getElem?_inj (by simpa using hjlt) hn).1 ?_
    simp only [List.getElem?_map, hb, h, Option.map_some, heq]
  constructor
  · intro hb
    obtain ⟨j, hj⟩ := getElem?_of_mem hb
    by_cases hjc : j = s.currentIndex
    · subst hjc
      left
      simpa [moveCurrent, hlt, eq_comm] using hj
    · right
      rw [moveCurrent, getElem?_set_ne (Ne.symm hjc)] at hj
      exact ⟨mem_of_getElem? hj, fun heq => hjc (hinj hj heq)⟩
  · rintro (rfl | ⟨hb, hne⟩)
    · exact mem_set hlt _
    · obtain ⟨j, hj⟩ := getElem?_of_mem hb
      have hjc : j ≠ s.currentIndex := by
        rintro rfl
        rw [h] at hj
        exact hne (by rw [Option.some.inj hj])
      refine mem_of_getElem? (i := j) ?_
      rw [moveCurrent, getElem?_set_ne (Ne.symm hjc)]
      exact hj

end

/-- Moving the current iterator of a forward scan forward leaves every iterator on the
first key of its file after the old one. -/
lemma ForwardAt.ahead_moveCurrent (h : s.ForwardAt c) (ha : s.active[s.currentIndex]? = some a)
    (hpos : a.pos = some c) : (s.moveCurrent a ((L.file a.fileIndex).next c)).Ahead (c < ·) := by
  have hc : c ∈ (L.file a.fileIndex).entries := by
    have hfirst := h.ahead a (mem_of_getElem? ha)
    rw [hpos] at hfirst
    exact hfirst.1.1
  intro b hb
  rcases (mem_moveCurrent ha h.nodup).1 hb with rfl | ⟨hb, hne⟩
  · exact (L.file a.fileIndex).next_isFirst c
  · -- another file does not hold `c`, so its first key from `c` on is after `c`
    have hset : {k | k ∈ (L.file b.fileIndex).entries ∧ c < k} =
        {k | k ∈ (L.file b.fileIndex).entries ∧ c ≤ k} := by
      ext k
      refine and_congr_right fun hk => ⟨le_of_lt, fun hle => lt_of_le_of_ne hle ?_⟩
      rintro rfl
      exact hne (L.eq_of_mem_entries hk hc)
    rw [hset]
    exact h.ahead b hb

/-- The file `TryActivateNextFile` opens: among the files that are not open and start after
`c`, the one that starts first. -/
def IsNextFile (L : L0Files κ) (O : Set (Fin L.files.length)) (c : κ)
    (b : Fin L.files.length) : Prop :=
  (b ∉ O ∧ c < (L.file b).smallest) ∧
    ∀ j, j ∉ O → c < (L.file j).smallest → KeyBefore (fun i => (L.file i).smallest) b j

lemma bestFile_spec (c : κ) : match s.bestFile c with
    | some b => IsNextFile L s.opened c b
    | none => ∀ j, j ∉ s.opened → ¬ c < (L.file j).smallest := by
  have hspec := argminFrom_spec (fun i => !s.iteratorActive i && decide (c < (L.file i).smallest))
    (fun i => (L.file i).smallest) (pairwise_lt_finRange L.files.length)
  unfold bestFile
  revert hspec
  cases argminFrom (fun i => !s.iteratorActive i && decide (c < (L.file i).smallest))
    (fun i => (L.file i).smallest) none (finRange L.files.length) with
  | none => simp
  | some b =>
    rintro ⟨⟨-, hb⟩, hall⟩
    exact ⟨by simpa using hb, fun j hj hlt => hall j (mem_finRange j) (by simp [hj, hlt])⟩

lemma IsNextFile.unique {O : Set (Fin L.files.length)} {b b' : Fin L.files.length}
    (h : IsNextFile L O c b) (h' : IsNextFile L O c b') : b = b' := by
  have hle := keyBefore_iff.1 (h.2 b' h'.1.1 h'.1.2)
  have hle' := keyBefore_iff.1 (h'.2 b h.1.1 h.1.2)
  exact (Prod.mk.inj (toLex_inj.1 (le_antisymm hle hle'))).2

/-- `Next` of a forward scan, when an open file has a key after the current one. -/
lemma ForwardAt.next_of_isLeast (h : s.ForwardAt c) (hq : IsLeast (s.openKeys (c < ·)) q) :
    s.next.ForwardAt q ∧ s.next.opened = s.opened ∪ {i | (L.file i).inRange q} := by
  obtain ⟨a, ha, hpos⟩ := exists_current h.key
  have hahead := h.ahead_moveCurrent ha hpos
  have hopen := opened_moveCurrent ha ((L.file a.fileIndex).next c)
  have hnodup := nodup_moveCurrent ha h.nodup ((L.file a.fileIndex).next c)
  simp only [next, ha, hpos]
  generalize s.moveCurrent a ((L.file a.fileIndex).next c) = s₁ at hahead hopen hnodup
  have hkeys : s₁.openKeys (c < ·) = s.openKeys (c < ·) := by rw [openKeys, openKeys, hopen]
  have hkey : s₁.findSmallest.key? = some q := by
    have hfirst := hahead.findSmallest
    rw [hkeys] at hfirst
    exact hfirst.unique hq
  have hfw : s₁.findSmallest.ForwardAt q := by
    refine ⟨hnodup, Ahead.congr hahead fun i hi k hk => ?_, hkey⟩
    have hi' : i ∈ s.opened := hopen ▸ hi
    exact ⟨fun hck => hq.2 ⟨i, hi', hk, hck⟩, fun hqk => lt_of_lt_of_le hq.1.choose_spec.2.2 hqk⟩
  simp only [hkey]
  rw [← hopen]
  exact ⟨hfw.maybeAddMoreFilesForward, opened_maybeAddMoreFilesForward _ q⟩

/-- `Next` of a forward scan, when the open files have no key after the current one: the
next file in range order is opened, and the scan ends if there is none or it is empty. -/
lemma ForwardAt.next_of_empty (h : s.ForwardAt c) (hempty : s.openKeys (c < ·) = ∅) :
    (∀ b q, IsNextFile L s.opened c b → (L.file b).entries.head? = some q →
      s.next.ForwardAt q ∧ s.next.opened = s.opened ∪ {i | (L.file i).inRange q}) ∧
    ((∀ b, IsNextFile L s.opened c b → (L.file b).entries = []) → s.next.key? = none) := by
  obtain ⟨a, ha, hpos⟩ := exists_current h.key
  have hahead := h.ahead_moveCurrent ha hpos
  have hopen := opened_moveCurrent ha ((L.file a.fileIndex).next c)
  have hnodup := nodup_moveCurrent ha h.nodup ((L.file a.fileIndex).next c)
  simp only [next, ha, hpos]
  generalize s.moveCurrent a ((L.file a.fileIndex).next c) = s₁ at hahead hopen hnodup
  have hnone : ∀ i ∈ s₁.opened, ∀ k ∈ (L.file i).entries, ¬ c < k := by
    intro i hi k hk hck
    have hmem : k ∈ s.openKeys (c < ·) := ⟨i, hopen ▸ hi, hk, hck⟩
    rw [hempty] at hmem
    exact hmem
  have hkey : s₁.findSmallest.key? = none := by
    refine hahead.findSmallest.unique (isFirst_none.2 ?_)
    refine Set.eq_empty_of_forall_notMem ?_
    rintro k ⟨i, hi, hk, hck⟩
    exact hnone i hi k hk hck
  have hbest := bestFile_spec (s := s₁.findSmallest) c
  rw [opened_findSmallest, hopen] at hbest
  simp only [hkey, tryActivateNextFile]
  constructor
  · intro b q hb hq
    cases hbf : s₁.findSmallest.bestFile c with
    | none =>
      rw [hbf] at hbest
      exact absurd hb.1.2 (hbest b hb.1.1)
    | some b' =>
      rw [hbf] at hbest
      obtain rfl := hb.unique hbest
      dsimp only
      have hleast : IsLeast {k | k ∈ (L.file b).entries} q := by
        have := (L.file b).seekToFirst_isFirst
        rwa [L0File.seekToFirst, hq] at this
      have hcq : c < q := lt_of_lt_of_le hb.1.2 ((L.file b).bounds q hleast.1).1
      -- the old iterators are exhausted and the new one stands on `q`
      have hold : s₁.findSmallest.Ahead (q ≤ ·) := by
        refine Ahead.congr hahead fun i hi k hk => ?_
        exact iff_of_false (hnone i hi k hk) fun hqk => hnone i hi k hk (lt_of_lt_of_le hcq hqk)
      have hahead₂ : (s₁.findSmallest.activateAt b (L.file b).seekToFirst).Ahead (q ≤ ·) := by
        refine ahead_activateAt hold ?_
        rw [L0File.seekToFirst, hq]
        exact ⟨⟨hleast.1, le_rfl⟩, fun k hk => hk.2⟩
      have hopen₂ : (s₁.findSmallest.activateAt b (L.file b).seekToFirst).opened =
          insert b s.opened := by rw [opened_activateAt, opened_findSmallest, hopen]
      have hnodup₂ : (s₁.findSmallest.activateAt b (L.file b).seekToFirst).Nodup :=
        nodup_activateAt s₁.findSmallest hnodup (by rw [opened_findSmallest, hopen]; exact hb.1.1) _
      generalize s₁.findSmallest.activateAt b (L.file b).seekToFirst = s₂ at hahead₂ hopen₂ hnodup₂
      have hkey₂ : s₂.findSmallest.key? = some q := by
        refine hahead₂.findSmallest.unique ⟨⟨b, ?_, hleast.1, le_rfl⟩, ?_⟩
        · rw [hopen₂]
          exact Set.mem_insert b _
        · rintro k ⟨i, hi, hk, hqk⟩
          exact hqk
      have hfw : s₂.findSmallest.ForwardAt q := ⟨hnodup₂, hahead₂, hkey₂⟩
      simp only [hkey₂]
      refine ⟨hfw.maybeAddMoreFilesForward, (opened_maybeAddMoreFilesForward _ q).trans ?_⟩
      -- `b` itself has `q` in its range
      have hbr : b ∈ {i | (L.file i).inRange q} := (L.file b).inRange_of_mem hleast.1
      rw [opened_findSmallest, hopen₂, Set.insert_union, Set.insert_eq_of_mem (Set.mem_union_right _ hbr)]
  · intro hall
    cases hbf : s₁.findSmallest.bestFile c with
    | none => exact hkey
    | some b =>
      rw [hbf] at hbest
      have hfirst : (L.file b).seekToFirst = none := by
        rw [L0File.seekToFirst, hall b hbest]
        rfl
      have hahead₂ : (s₁.findSmallest.activateAt b (L.file b).seekToFirst).Ahead (c < ·) := by
        refine ahead_activateAt hahead ?_
        rw [hfirst, hall b hbest]
        simp
      have hkey₂ : (s₁.findSmallest.activateAt b (L.file b).seekToFirst).findSmallest.key? =
          none := by
        refine hahead₂.findSmallest.unique (isFirst_none.2 ?_)
        refine Set.eq_empty_of_forall_notMem ?_
        rintro k ⟨i, hi, hk, hck⟩
        rw [opened_activateAt, opened_findSmallest] at hi
        rcases hi with rfl | hi
        · rw [hall i hbest] at hk
          exact absurd hk not_mem_nil
        · exact hnone i hi k hk hck
      simp only [hkey₂]

/-- A forward scan never comes back to a key. -/
lemma ForwardAt.sorted_of_yields (h : s.ForwardAt c) {l : List κ} (hl : s.Yields l) :
    l.Pairwise (· < ·) ∧ ∀ k ∈ l, c ≤ k := by
  induction l generalizing s c with
  | nil => exact ⟨.nil, by simp⟩
  | cons k l ih =>
    obtain rfl : c = k := Option.some.inj (h.key.symm.trans hl.1)
    -- the next key is after `c`, whether an open file has it or the next file starts with it
    have hnext : ∀ q, s.next.key? = some q → c < q ∧ s.next.ForwardAt q := by
      intro q hq
      by_cases hopen : s.openKeys (c < ·) = ∅
      · by_cases hempty : ∀ b, IsNextFile L s.opened c b → (L.file b).entries = []
        · exact absurd (hq.symm.trans ((h.next_of_empty hopen).2 hempty)) (by simp)
        · push Not at hempty
          obtain ⟨b, hb, hne⟩ := hempty
          obtain ⟨q', rest, hrest⟩ := exists_cons_of_ne_nil hne
          have hfw := ((h.next_of_empty hopen).1 b q' hb (by rw [hrest]; rfl)).1
          obtain rfl := Option.some.inj (hfw.key.symm.trans hq)
          have hle := ((L.file b).bounds q' (by rw [hrest]; exact mem_cons_self)).1
          exact ⟨lt_of_lt_of_le hb.1.2 hle, hfw⟩
      · obtain ⟨a, ha, hpos⟩ := exists_current h.key
        obtain ⟨q', hq'⟩ : ∃ q', IsLeast (s.openKeys (c < ·)) q' := by
          have hfirst := (h.ahead_moveCurrent ha hpos).findSmallest
          have hkeys : (s.moveCurrent a ((L.file a.fileIndex).next c)).openKeys (c < ·) =
              s.openKeys (c < ·) := by rw [openKeys, openKeys, opened_moveCurrent ha]
          rw [hkeys] at hfirst
          cases hkey : (s.moveCurrent a ((L.file a.fileIndex).next c)).findSmallest.key? with
          | none =>
            rw [hkey] at hfirst
            exact absurd (isFirst_none.1 hfirst) hopen
          | some q' =>
            rw [hkey] at hfirst
            exact ⟨q', hfirst⟩
        have hfw := (h.next_of_isLeast hq').1
        obtain rfl := Option.some.inj (hfw.key.symm.trans hq)
        exact ⟨hq'.1.choose_spec.2.2, hfw⟩
    cases l with
    | nil => exact ⟨by simp, by simp⟩
    | cons q l =>
      obtain ⟨hlt, hfw⟩ := hnext q hl.2.1
      obtain ⟨hsorted, hle⟩ := ih hfw hl.2
      have hall : ∀ k ∈ q :: l, c < k := fun k hk => lt_of_lt_of_le hlt (hle k hk)
      refine ⟨pairwise_cons.2 ⟨hall, hsorted⟩, ?_⟩
      intro k hk
      rcases mem_cons.1 hk with rfl | hk
      · exact le_rfl
      · exact (hall k hk).le

/-! ## Forward scans -/

/-- A forward scan from `t` has opened the file by the time it stands on `c`: the file's
range contains the target, or a key reached by a `Next` up to `c`. The first key of the
scan is reached by the `Seek` and opens no file. -/
def OpenedBy (L : L0Files κ) (t c : κ) (i : Fin L.files.length) : Prop :=
  (L.file i).inRange t ∨
    ∃ e ∈ L.keys, (∃ e' ∈ L.keys, t ≤ e' ∧ e' < e) ∧ e ≤ c ∧ (L.file i).inRange e

/-- The scan gets from `c` to the following key `q`: `q` is in a file that is open by then,
or the open files are exhausted and the next file in range order starts with `q`. -/
def StepReaches (L : L0Files κ) (t c q : κ) : Prop :=
  (∃ i, OpenedBy L t c i ∧ q ∈ (L.file i).entries) ∨
    (∀ i, OpenedBy L t c i → ∀ k ∈ (L.file i).entries, k ≤ c) ∧
      ∃ b, IsNextFile L {i | OpenedBy L t c i} c b ∧ (L.file b).entries.head? = some q

/-- The condition under which a forward scan from `t` misses no key: the first key is in a
file whose range contains `t`, and every further one is reached from the one before. -/
structure ForwardComplete (L : L0Files κ) (t : κ) : Prop where
  first : ∀ e, IsLeast {k | k ∈ L.keys ∧ t ≤ k} e →
    ∃ i, (L.file i).inRange t ∧ e ∈ (L.file i).entries
  step : ∀ c q, c ∈ L.keys → t ≤ c → IsLeast {k | k ∈ L.keys ∧ c < k} q → StepReaches L t c q

variable {t : κ}

/-- The files open at the key after `c` are those open at `c` and those in range there. -/
lemma openedBy_succ (hc : c ∈ L.keys) (htc : t ≤ c)
    (hq : IsLeast {k | k ∈ L.keys ∧ c < k} q) (i : Fin L.files.length) :
    OpenedBy L t q i ↔ OpenedBy L t c i ∨ (L.file i).inRange q := by
  unfold OpenedBy
  constructor
  · rintro (h | ⟨e, he, hfirst, heq, hr⟩)
    · exact .inl (.inl h)
    · by_cases hec : e ≤ c
      · exact .inl (.inr ⟨e, he, hfirst, hec, hr⟩)
      · obtain rfl : e = q := le_antisymm heq (hq.2 ⟨he, not_le.1 hec⟩)
        exact .inr hr
  · rintro ((h | ⟨e, he, hfirst, hec, hr⟩) | h)
    · exact .inl h
    · exact .inr ⟨e, he, hfirst, hec.trans hq.1.2.le, hr⟩
    · exact .inr ⟨q, hq.1.1, ⟨c, hc, htc, hq.1.2⟩, le_rfl, h⟩

/-- One step of a forward scan: `Next` reaches the following key exactly when the condition
says so, and the scan then is in the forward state of that key. -/
lemma ForwardAt.next_key?_iff (h : s.ForwardAt c) (ho : s.opened = {i | OpenedBy L t c i})
    (hc : c ∈ L.keys) (htc : t ≤ c) (hq : IsLeast {k | k ∈ L.keys ∧ c < k} q) :
    (s.next.key? = some q ↔ StepReaches L t c q) ∧
      (StepReaches L t c q → s.next.ForwardAt q ∧ s.next.opened = {i | OpenedBy L t q i}) := by
  have hopen : s.opened ∪ {i | (L.file i).inRange q} = {i | OpenedBy L t q i} := by
    ext i
    rw [ho]
    exact (openedBy_succ hc htc hq i).symm
  have hmem : ∀ i, i ∈ s.opened ↔ OpenedBy L t c i := fun i => by rw [ho]; rfl
  -- an open file that holds `q` makes it the least open key
  have hleast : ∀ i, OpenedBy L t c i → q ∈ (L.file i).entries →
      IsLeast (s.openKeys (c < ·)) q := fun i hi hqi =>
    ⟨⟨i, (hmem i).2 hi, hqi, hq.1.2⟩, fun k ⟨j, _, hk, hck⟩ => hq.2 ⟨⟨j, hk⟩, hck⟩⟩
  have hempty : (∀ i, OpenedBy L t c i → ∀ k ∈ (L.file i).entries, k ≤ c) →
      s.openKeys (c < ·) = ∅ := fun hall =>
    Set.eq_empty_of_forall_notMem fun k ⟨i, hi, hk, hck⟩ =>
      absurd hck (not_lt.2 (hall i ((hmem i).1 hi) k hk))
  have hreach : StepReaches L t c q →
      s.next.ForwardAt q ∧ s.next.opened = {i | OpenedBy L t q i} := by
    rw [← hopen]
    rintro (⟨i, hi, hqi⟩ | ⟨hall, b, hb, hhead⟩)
    · exact h.next_of_isLeast (hleast i hi hqi)
    · exact (h.next_of_empty (hempty hall)).1 b q (ho ▸ hb) hhead
  refine ⟨⟨fun hkey => ?_, fun hr => (hreach hr).1.key⟩, hreach⟩
  by_cases hall : ∀ i, OpenedBy L t c i → ∀ k ∈ (L.file i).entries, k ≤ c
  · -- the open files are exhausted, so `Next` came from the next file in range order
    obtain ⟨hnext, hend⟩ := h.next_of_empty (hempty hall)
    by_contra hnot
    by_cases hb : ∀ b, IsNextFile L s.opened c b → (L.file b).entries = []
    · rw [hend hb] at hkey
      exact absurd hkey (by simp)
    · push Not at hb
      obtain ⟨b, hb, hne⟩ := hb
      obtain ⟨q', rest, hcons⟩ := exists_cons_of_ne_nil hne
      have hhead : (L.file b).entries.head? = some q' := by rw [hcons]; rfl
      have hkey' := (hnext b q' hb hhead).1.key
      obtain rfl : q' = q := Option.some.inj (hkey'.symm.trans hkey)
      exact hnot (.inr ⟨hall, b, ho ▸ hb, hhead⟩)
  · -- some open file goes on, and the scan takes the least key the open files offer
    push Not at hall
    obtain ⟨i, hi, k, hk, hck⟩ := hall
    obtain ⟨q', hq'⟩ : ∃ q', IsLeast (s.openKeys (c < ·)) q' := by
      obtain ⟨o, hfirst⟩ := exists_isFirst L.merged_sorted
        (S := s.openKeys (c < ·)) fun k ⟨i, _, hk, _⟩ => L.mem_merged.2 ⟨i, hk⟩
      cases o with
      | some q' => exact ⟨q', hfirst⟩
      | none =>
        have hmem : k ∈ s.openKeys (c < ·) := ⟨i, (hmem i).2 hi, hk, hck⟩
        rw [isFirst_none.1 hfirst] at hmem
        exact absurd hmem (Set.notMem_empty k)
    have hkey' := (h.next_of_isLeast hq').1.key
    obtain rfl : q' = q := Option.some.inj (hkey'.symm.trans hkey)
    obtain ⟨j, hj, hqj, -⟩ := hq'.1
    exact .inl ⟨j, (hmem j).1 hj, hqj⟩

/-- A forward scan that stands on the last key of the level ends with the next `Next`. -/
lemma ForwardAt.next_key?_eq_none (h : s.ForwardAt c) (hlast : ∀ k ∈ L.keys, k ≤ c) :
    s.next.key? = none := by
  have hempty : s.openKeys (c < ·) = ∅ :=
    Set.eq_empty_of_forall_notMem fun k ⟨i, _, hk, hck⟩ => absurd hck (not_lt.2 (hlast k ⟨i, hk⟩))
  refine (h.next_of_empty hempty).2 fun b hb => ?_
  refine eq_nil_iff_forall_not_mem.2 fun k hk => ?_
  exact absurd (lt_of_lt_of_le hb.1.2 ((L.file b).bounds k hk).1) (not_lt.2 (hlast k ⟨b, hk⟩))

section

variable (hsorted : (c :: q :: rest).Pairwise (· < ·))
  (hrest : ∀ k, k ∈ q :: rest ↔ k ∈ L.keys ∧ c < k)

include hsorted hrest

/-- The head of the keys after `c`. -/
lemma isLeast_of_cons : IsLeast {k | k ∈ L.keys ∧ c < k} q := by
  refine ⟨(hrest q).1 mem_cons_self, fun k hk => ?_⟩
  rcases mem_cons.1 ((hrest k).2 hk) with rfl | hmem
  · exact le_rfl
  · exact ((pairwise_cons.1 (pairwise_cons.1 hsorted).2).1 k hmem).le

/-- The keys after the head of the keys after `c`. -/
lemma mem_tail_iff (k : κ) : k ∈ rest ↔ k ∈ L.keys ∧ q < k := by
  have hq := (hrest q).1 mem_cons_self
  have hlt := (pairwise_cons.1 (pairwise_cons.1 hsorted).2).1
  constructor
  · intro hk
    exact ⟨((hrest k).1 (mem_cons_of_mem _ hk)).1, hlt k hk⟩
  · rintro ⟨hk, hqk⟩
    exact (mem_cons.1 ((hrest k).2 ⟨hk, hq.2.trans hqk⟩)).resolve_left hqk.ne'

end

/-- A forward scan reads the rest of the level exactly when every step reaches its key. The
induction is on the keys still to be read. -/
lemma ForwardAt.yields_iff (h : s.ForwardAt c) (ho : s.opened = {i | OpenedBy L t c i})
    (hc : c ∈ L.keys) (htc : t ≤ c) (hsorted : (c :: rest).Pairwise (· < ·))
    (hrest : ∀ k, k ∈ rest ↔ k ∈ L.keys ∧ c < k) :
    s.Yields (c :: rest) ↔ ∀ c' q, c' ∈ L.keys → c ≤ c' →
      IsLeast {k | k ∈ L.keys ∧ c' < k} q → StepReaches L t c' q := by
  induction rest generalizing s c with
  | nil =>
    have hlast : ∀ k ∈ L.keys, k ≤ c := fun k hk =>
      not_lt.1 fun hck => absurd ((hrest k).2 ⟨hk, hck⟩) not_mem_nil
    refine iff_of_true ⟨h.key, h.next_key?_eq_none hlast⟩ fun c' q _ hcc' hq => ?_
    exact absurd (lt_of_le_of_lt hcc' hq.1.2) (not_lt.2 (hlast q hq.1.1))
  | cons q rest ih =>
    have hq := isLeast_of_cons hsorted hrest
    obtain ⟨hiff, hreach⟩ := h.next_key?_iff ho hc htc hq
    have hnext : StepReaches L t c q → (s.next.Yields (q :: rest) ↔ ∀ c' q', c' ∈ L.keys →
        q ≤ c' → IsLeast {k | k ∈ L.keys ∧ c' < k} q' → StepReaches L t c' q') := fun hr =>
      ih (hreach hr).1 (hreach hr).2 hq.1.1 (htc.trans hq.1.2.le) (pairwise_cons.1 hsorted).2
        (mem_tail_iff hsorted hrest)
    constructor
    · intro hy c' q' hc' hcc' hq'
      have hr : StepReaches L t c q := hiff.1 hy.2.1
      rcases hcc'.eq_or_lt with rfl | hlt
      · rwa [hq'.unique hq]
      · exact (hnext hr).1 hy.2 c' q' hc' (hq.2 ⟨hc', hlt⟩) hq'
    · intro hall
      have hr : StepReaches L t c q := hall c q hc le_rfl hq
      exact ⟨h.key, (hnext hr).2 fun c' q' hc' hqc' => hall c' q' hc' (hq.1.2.le.trans hqc')⟩

/-- With all files open, a forward scan reads the rest of the level. -/
lemma ForwardAt.yields_of_opened_univ (h : s.ForwardAt c) (ho : s.opened = Set.univ)
    (hsorted : (c :: rest).Pairwise (· < ·)) (hrest : ∀ k, k ∈ rest ↔ k ∈ L.keys ∧ c < k) :
    s.Yields (c :: rest) := by
  induction rest generalizing s c with
  | nil =>
    refine ⟨h.key, h.next_key?_eq_none fun k hk => not_lt.1 fun hck => ?_⟩
    exact absurd ((hrest k).2 ⟨hk, hck⟩) not_mem_nil
  | cons q rest ih =>
    have hq := isLeast_of_cons hsorted hrest
    have hleast : IsLeast (s.openKeys (c < ·)) q := by
      obtain ⟨i, hi⟩ := hq.1.1
      exact ⟨⟨i, by simp [ho], hi, hq.1.2⟩, fun k ⟨j, _, hk, hck⟩ => hq.2 ⟨⟨j, hk⟩, hck⟩⟩
    obtain ⟨hfw, hopen⟩ := h.next_of_isLeast hleast
    refine ⟨h.key, ih hfw (by rw [hopen, ho, Set.univ_union]) (pairwise_cons.1 hsorted).2
      (mem_tail_iff hsorted hrest)⟩

/-- The keys of the level from some point on, listed in order. -/
lemma merged_filter_cons {p : κ → Bool} {e : κ} (h : L.merged.filter p = e :: rest)
    (hup : ∀ k, e < k → p k) : (e :: rest).Pairwise (· < ·) ∧ IsLeast {k | k ∈ L.keys ∧ p k} e ∧
      ∀ k, k ∈ rest ↔ k ∈ L.keys ∧ e < k := by
  have hsorted : (e :: rest).Pairwise (· < ·) := h ▸ L.merged_sorted.filter _
  have hlt := (pairwise_cons.1 hsorted).1
  have hmem : ∀ k, k ∈ e :: rest ↔ k ∈ L.keys ∧ p k := fun k => by
    rw [← h, mem_filter, L.mem_merged]
  refine ⟨hsorted, ⟨(hmem e).1 mem_cons_self, fun k hk => ?_⟩, fun k => ⟨fun hk => ?_, ?_⟩⟩
  · rcases mem_cons.1 ((hmem k).2 hk) with rfl | hk'
    · exact le_rfl
    · exact (hlt k hk').le
  · exact ⟨((hmem k).1 (mem_cons_of_mem _ hk)).1, hlt k hk⟩
  · rintro ⟨hk, hek⟩
    exact (mem_cons.1 ((hmem k).2 ⟨hk, hup k hek⟩)).resolve_left hek.ne'

lemma merged_filter_nil {p : κ → Bool} (h : L.merged.filter p = []) : {k | k ∈ L.keys ∧ p k} = ∅ :=
  Set.eq_empty_of_forall_notMem fun k hk =>
    filter_eq_nil_iff.1 h k (L.mem_merged.2 hk.1) hk.2

/-- `SeekToFirst` followed by `Next` until the end reads the whole merge. -/
lemma yields_seekToFirst (L : L0Files κ) :
    (seekToFirst : L0RangeScanIterator L).Yields L.merged := by
  obtain ⟨hn, ho⟩ := activateAll_cleared (L := L)
  have hahead : ((cleared.activateAll : L0RangeScanIterator L).moveAll L0File.seekToFirst).Ahead
      (fun _ => True) :=
    ahead_moveAll _ fun f => by simpa using f.seekToFirst_isFirst
  have hfirst := hahead.findSmallest
  have hkeys : ((cleared.activateAll : L0RangeScanIterator L).moveAll L0File.seekToFirst).openKeys
      (fun _ => True) = {k | k ∈ L.keys ∧ true} := by
    ext k
    simp [openKeys, ho, L0Files.keys]
  rw [hkeys] at hfirst
  rw [← filter_true L.merged]
  cases hm : L.merged.filter fun _ => true with
  | nil => exact hfirst.unique (isFirst_none.2 (merged_filter_nil hm))
  | cons e rest =>
    obtain ⟨hsorted, hleast, hrest⟩ := merged_filter_cons hm fun _ _ => rfl
    refine ForwardAt.yields_of_opened_univ (c := e) ⟨nodup_moveAll _ hn _, ?_, ?_⟩ ?_ hsorted hrest
    · exact Ahead.congr hahead fun i _ k hk => iff_of_true trivial (hleast.2 ⟨⟨i, hk⟩, rfl⟩)
    · exact hfirst.unique hleast
    · exact (opened_moveAll _ _).trans ho

/-- The files a `Seek` to `t` opens are those open when the scan stands on its first key. -/
lemma openedBy_first {e : κ} (he : IsLeast {k | k ∈ L.keys ∧ t ≤ k} e)
    (i : Fin L.files.length) : OpenedBy L t e i ↔ (L.file i).inRange t := by
  refine ⟨?_, .inl⟩
  rintro (h | ⟨k, _, ⟨k', hk', htk', hlt⟩, hke, _⟩)
  · exact h
  · exact absurd (lt_of_lt_of_le hlt hke) (not_lt.2 (he.2 ⟨hk', htk'⟩))

/-- `Seek` followed by `Next` until the end reads the merge from the target on exactly when
the condition holds. -/
lemma yields_seek_iff (L : L0Files κ) (t : κ) :
    (seek t : L0RangeScanIterator L).Yields (L.merged.filter (t ≤ ·)) ↔ ForwardComplete L t := by
  obtain ⟨hn, ho⟩ := addOverlappingFiles_cleared (L := L) t
  have hahead : ((cleared.addOverlappingFiles t : L0RangeScanIterator L).moveAll
      (L0File.seek · t)).Ahead (t ≤ ·) := ahead_moveAll _ fun f => f.seek_isFirst t
  have hopen : (seek t : L0RangeScanIterator L).opened = {i | (L.file i).inRange t} :=
    (opened_moveAll _ (L0File.seek · t)).trans ho
  have hfirst : IsFirst ((seek t : L0RangeScanIterator L).openKeys (t ≤ ·))
      (seek t : L0RangeScanIterator L).key? := hahead.findSmallest
  have hnodup : (seek t : L0RangeScanIterator L).Nodup := nodup_moveAll _ hn (L0File.seek · t)
  replace hahead : (seek t : L0RangeScanIterator L).Ahead (t ≤ ·) := hahead
  generalize (seek t : L0RangeScanIterator L) = s at hahead hopen hfirst hnodup
  cases hm : L.merged.filter fun k => decide (t ≤ k) with
  | nil =>
    have hnone : ∀ k ∈ L.keys, ¬ t ≤ k := fun k hk htk => by
      have hmem : k ∈ {k | k ∈ L.keys ∧ decide (t ≤ k) = true} := ⟨hk, decide_eq_true htk⟩
      rw [merged_filter_nil hm] at hmem
      exact hmem
    refine iff_of_true (hfirst.unique (isFirst_none.2 ?_)) ⟨fun e he => ?_, fun c q hc htc => ?_⟩
    · exact Set.eq_empty_of_forall_notMem fun k ⟨i, _, hk, htk⟩ => hnone k ⟨i, hk⟩ htk
    · exact absurd he.1.2 (hnone e he.1.1)
    · exact absurd htc (hnone c hc)
  | cons e rest =>
    have hmem : e ∈ L.merged.filter fun k => decide (t ≤ k) := hm ▸ mem_cons_self
    have hte : t ≤ e := of_decide_eq_true (mem_filter.1 hmem).2
    obtain ⟨hsorted, hleast, hrest⟩ := merged_filter_cons hm
      fun k hek => decide_eq_true (hte.trans hek.le)
    have hleast : IsLeast {k | k ∈ L.keys ∧ t ≤ k} e := by simpa using hleast
    -- once the first key is in an open file, the `Seek` ends in the forward state of that key
    have hiff : (∃ i, (L.file i).inRange t ∧ e ∈ (L.file i).entries) →
        (s.Yields (e :: rest) ↔ ∀ c q, c ∈ L.keys → e ≤ c →
          IsLeast {k | k ∈ L.keys ∧ c < k} q → StepReaches L t c q) := by
      rintro ⟨i, hi, hei⟩
      have hkey : s.key? = some e := hfirst.unique
        ⟨⟨i, by rw [hopen]; exact hi, hei, hte⟩, fun k ⟨j, _, hk, htk⟩ => hleast.2 ⟨⟨j, hk⟩, htk⟩⟩
      refine ForwardAt.yields_iff ⟨hnodup, ?_, hkey⟩ ?_ hleast.1.1 hte hsorted hrest
      · exact hahead.congr fun j _ k hk =>
          ⟨fun htk => hleast.2 ⟨⟨j, hk⟩, htk⟩, fun hek => hte.trans hek⟩
      · rw [hopen]
        ext j
        exact (openedBy_first hleast j).symm
    constructor
    · intro hy
      obtain ⟨i, hi, hei, -⟩ : e ∈ s.openKeys (t ≤ ·) := by
        have hkey : s.key? = some e := hy.1
        rw [hkey] at hfirst
        exact hfirst.1
      rw [hopen] at hi
      refine ⟨fun e' he' => ?_, fun c q hc htc hq => ?_⟩
      · rw [he'.unique hleast]
        exact ⟨i, hi, hei⟩
      · exact (hiff ⟨i, hi, hei⟩).1 hy c q hc (hleast.2 ⟨hc, htc⟩) hq
    · intro hcomplete
      refine (hiff (hcomplete.first e hleast)).2 fun c q hc hec hq => ?_
      exact hcomplete.step c q hc (hte.trans hec) hq

/-- What a scan from a `Seek` reads comes in order. -/
lemma sorted_of_yields_seek {l : List κ} (hl : (seek t : L0RangeScanIterator L).Yields l) :
    l.Pairwise (· < ·) := by
  cases l with
  | nil => exact .nil
  | cons e l =>
    obtain ⟨hn, -⟩ := addOverlappingFiles_cleared (L := L) t
    have hahead : (seek t : L0RangeScanIterator L).Ahead (t ≤ ·) :=
      ahead_moveAll _ fun f => f.seek_isFirst t
    have hfirst : IsFirst ((seek t : L0RangeScanIterator L).openKeys (t ≤ ·))
        (seek t : L0RangeScanIterator L).key? :=
      (ahead_moveAll (cleared.addOverlappingFiles t) fun f => f.seek_isFirst t).findSmallest
    rw [hl.1] at hfirst
    have hfw : (seek t : L0RangeScanIterator L).ForwardAt e := by
      refine ⟨nodup_moveAll _ hn (L0File.seek · t), hahead.congr fun i hi k hk => ?_, hl.1⟩
      exact ⟨fun htk => hfirst.2 ⟨i, hi, hk, htk⟩, fun hek => hfirst.1.choose_spec.2.2.trans hek⟩
    exact (hfw.sorted_of_yields hl).1

/-- Both ways of starting a forward scan read the merge of the level-0 files from their
starting point on, each key once and in order, exactly when the level is complete for the
target of the `Seek`. -/
theorem forward_scan_reads_merge_iff (L : L0Files κ) (t : κ) :
    (seek t : L0RangeScanIterator L).Yields (L.merged.filter (t ≤ ·)) ∧
      (seekToFirst : L0RangeScanIterator L).Yields L.merged ↔ ForwardComplete L t := by
  rw [yields_seek_iff, and_iff_left (yields_seekToFirst L)]

end L0RangeScanIterator

/-- A level of one file with the single key `"b"`. -/
def oneFileLevel : L0Files (InternalKey Slice) :=
  ⟨[.single ⟨[98], 1, .value⟩], by decide⟩

/-- A `Seek` to `"a"` opens no file of the level, so the scan is at its end at once and
misses `"b"`. -/
theorem seek_before_first_file_reads_nothing :
    oneFileLevel.merged.filter ((⟨[97], maxSequenceNumber, .valuePreferredSeqno⟩ :
        InternalKey Slice) ≤ ·) = [⟨[98], 1, .value⟩] ∧
      (L0RangeScanIterator.seek ⟨[97], maxSequenceNumber, .valuePreferredSeqno⟩ :
        L0RangeScanIterator oneFileLevel).Yields [] ∧
      ¬ (L0RangeScanIterator.seek ⟨[97], maxSequenceNumber, .valuePreferredSeqno⟩ :
        L0RangeScanIterator oneFileLevel).Yields (oneFileLevel.merged.filter
          ((⟨[97], maxSequenceNumber, .valuePreferredSeqno⟩ : InternalKey Slice) ≤ ·)) := by
  decide +kernel

end BucketLSM
