import BucketLSM.Scan.L0RangeScan

/-!
# Positions of the open iterators

What the moves of the level-0 scan do to the set of open files and to the positions of the
table iterators, and where the best iterator stands afterwards.
-/

namespace BucketLSM

open Cursor List ActiveIterator

variable {κ : Type} [LinearOrder κ]

/-! ## Table iterators -/

namespace L0File

variable (f : L0File κ)

/-- The range of a file is closed at both ends. -/
lemma inRange_iff (key : κ) : f.inRange key ↔ f.smallest ≤ key ∧ key ≤ f.largest := by
  simp [inRange]

/-- The entries of a file are in its range. -/
lemma inRange_of_mem {key : κ} (h : key ∈ f.entries) : f.inRange key :=
  (f.inRange_iff key).2 (f.bounds key h)

/-- `Seek` goes to the first entry from the target on. -/
lemma seek_isFirst (target : κ) : IsFirst {k | k ∈ f.entries ∧ target ≤ k} (f.seek target) := by
  simpa [seek] using find?_isFirst f.sorted (target ≤ ·)

/-- `Next` goes to the first entry behind the key. -/
lemma next_isFirst (key : κ) : IsFirst {k | k ∈ f.entries ∧ key < k} (f.next key) := by
  simpa [next] using find?_isFirst f.sorted (key < ·)

/-- `SeekForPrev` goes to the last entry up to the target. -/
lemma seekForPrev_isLast (target : κ) :
    IsLast {k | k ∈ f.entries ∧ k ≤ target} (f.seekForPrev target) := by
  simpa [seekForPrev] using find?_reverse_isLast f.sorted (· ≤ target)

/-- `Prev` goes to the last entry before the key. -/
lemma prev_isLast (key : κ) : IsLast {k | k ∈ f.entries ∧ k < key} (f.prev key) := by
  simpa [prev] using find?_reverse_isLast f.sorted (· < key)

/-- `SeekToFirst` goes to the first entry of all. -/
lemma seekToFirst_isFirst : IsFirst {k | k ∈ f.entries} f.seekToFirst := by
  have h := find?_isFirst f.sorted fun _ => true
  have hfind : f.entries.find? (fun _ => true) = f.entries.head? := by
    cases f.entries <;> rfl
  simpa [seekToFirst, hfind] using h

/-- `SeekToLast` goes to the last entry of all. -/
lemma seekToLast_isLast : IsLast {k | k ∈ f.entries} f.seekToLast := by
  have h := find?_reverse_isLast f.sorted fun _ => true
  have hfind : f.entries.reverse.find? (fun _ => true) = f.entries.getLast? := by
    rw [← head?_reverse]
    cases f.entries.reverse <;> rfl
  simpa [seekToLast, hfind] using h

end L0File

namespace L0Files

variable (L : L0Files κ)

/-- No two files hold the same internal key. -/
lemma eq_of_mem_entries {i j : Fin L.files.length} {k : κ} (hi : k ∈ (L.file i).entries)
    (hj : k ∈ (L.file j).entries) : i = j := by
  rcases lt_trichotomy i j with h | h | h
  · exact absurd hj ((pairwise_iff_get.1 L.distinct) i j h k hi)
  · exact h
  · exact absurd hi ((pairwise_iff_get.1 L.distinct) j i h k hj)

/-- The merged list has the keys of all files. -/
lemma mem_merged {k : κ} : k ∈ L.merged ↔ k ∈ L.keys := by
  simp only [merged, mem_insertionSort, mem_flatMap, keys, Set.mem_ofPred_eq]
  constructor
  · rintro ⟨f, hf, hk⟩
    obtain ⟨i, rfl⟩ := get_of_mem hf
    exact ⟨i, hk⟩
  · rintro ⟨i, hk⟩
    exact ⟨L.file i, get_mem _ _, hk⟩

/-- The merged list is sorted without repetitions. -/
lemma merged_sorted : L.merged.Pairwise (· < ·) := by
  have hle : L.merged.Pairwise (· ≤ ·) := pairwise_insertionSort _ _
  have hnodup : L.merged.Nodup := by
    rw [merged, (perm_insertionSort _ _).nodup_iff, nodup_flatMap]
    refine ⟨fun f _ => f.sorted.imp fun h => h.ne, L.distinct.imp fun h => ?_⟩
    exact fun k hk hk' => h k hk hk'
  exact hle.imp₂ (fun a b hab hne => lt_of_le_of_ne hab hne) hnodup

end L0Files

/-! ## Open files and positions -/

namespace L0RangeScanIterator

variable {L : L0Files κ}

/-- The files whose table iterator is open. -/
def opened (s : L0RangeScanIterator L) : Set (Fin L.files.length) :=
  {i | ∃ a ∈ s.active, a.fileIndex = i}

/-- Every open table iterator stands on the first key of its file that meets `p`. -/
def Ahead (s : L0RangeScanIterator L) (p : κ → Prop) : Prop :=
  ∀ a ∈ s.active, IsFirst {k | k ∈ (L.file a.fileIndex).entries ∧ p k} a.pos

/-- Every open table iterator stands on the last key of its file that meets `p`. -/
def Behind (s : L0RangeScanIterator L) (p : κ → Prop) : Prop :=
  ∀ a ∈ s.active, IsLast {k | k ∈ (L.file a.fileIndex).entries ∧ p k} a.pos

/-- No file is opened twice. -/
def Nodup (s : L0RangeScanIterator L) : Prop := (s.active.map ActiveIterator.fileIndex).Nodup

variable (s : L0RangeScanIterator L)

/-- The active iterators are those of the files that have been opened. -/
@[simp]
lemma iteratorActive_iff (i : Fin L.files.length) : s.iteratorActive i ↔ i ∈ s.opened := by
  simp [iteratorActive, opened]

/-- A file without an active iterator has not been opened. -/
@[simp]
lemma iteratorActive_eq_false_iff (i : Fin L.files.length) :
    s.iteratorActive i = false ↔ i ∉ s.opened := by
  rw [← iteratorActive_iff, Bool.not_eq_true]

/-- Looking for the smallest key opens nothing. -/
@[simp]
lemma opened_findSmallest : s.findSmallest.opened = s.opened := rfl

/-- At the beginning no file is open. -/
@[simp]
lemma opened_cleared : (cleared : L0RangeScanIterator L).opened = ∅ := by
  simp [opened, cleared]

/-- Activating an iterator opens its file. -/
@[simp]
lemma opened_activateAt (i : Fin L.files.length) (pos : Option κ) :
    (s.activateAt i pos).opened = insert i s.opened := by
  ext j
  simp only [opened, activateAt, mem_append, mem_singleton, Set.mem_ofPred_eq, Set.mem_insert_iff]
  constructor
  · rintro ⟨a, ha | rfl, rfl⟩
    · exact .inr ⟨a, ha, rfl⟩
    · exact .inl rfl
  · rintro (rfl | ⟨a, ha, rfl⟩)
    · exact ⟨_, .inr rfl, rfl⟩
    · exact ⟨a, .inl ha, rfl⟩

/-- So it does when the file may be open already. -/
@[simp]
lemma opened_activateFile (i : Fin L.files.length) :
    (s.activateFile i).opened = insert i s.opened := by
  unfold activateFile
  split_ifs with h
  · exact (Set.insert_eq_of_mem ((s.iteratorActive_iff i).1 h)).symm
  · exact s.opened_activateAt i none

/-- Moving the iterators opens nothing. -/
@[simp]
lemma opened_moveAll (move : L0File κ → Option κ) : (s.moveAll move).opened = s.opened := by
  ext i
  simp [opened, moveAll]

/-- A file that is not open gets its first iterator. -/
lemma nodup_activateAt {i : Fin L.files.length} (h : s.Nodup) (hi : i ∉ s.opened)
    (pos : Option κ) : (s.activateAt i pos).Nodup := by
  unfold Nodup activateAt
  simp only [map_append, map_cons, map_nil]
  refine h.append (nodup_singleton i) ?_
  rw [disjoint_singleton, mem_map]
  rintro ⟨a, ha, rfl⟩
  exact hi ⟨a, ha, rfl⟩

/-- A file never gets a second iterator. -/
lemma nodup_activateFile (h : s.Nodup) (i : Fin L.files.length) : (s.activateFile i).Nodup := by
  unfold activateFile
  split_ifs with hi
  · exact h
  · exact s.nodup_activateAt h (fun hmem => hi ((s.iteratorActive_iff i).2 hmem)) none

/-- Moving the iterators adds none. -/
lemma nodup_moveAll (h : s.Nodup) (move : L0File κ → Option κ) : (s.moveAll move).Nodup := by
  unfold Nodup moveAll
  rw [map_map]
  exact h

/-- The candidates of a loop, with the first one taken out. -/
lemma union_mem_cons {ι : Type} (A : Set ι) (p : ι → Bool) (i : ι) (l : List ι) :
    A ∪ {j | j ∈ i :: l ∧ p j} = (if p i then insert i A else A) ∪ {j | j ∈ l ∧ p j} := by
  ext j
  by_cases hp : p i
  · by_cases hj : j = i <;> simp [hp, hj]
  · by_cases hj : j = i <;> simp [hp, hj]

/-- A loop over the files opens those that pass the test. -/
lemma foldl_activateFile (p : Fin L.files.length → Bool) (l : List (Fin L.files.length))
    (h : s.Nodup) : (l.foldl (fun s i => if p i then s.activateFile i else s) s).Nodup ∧
      (l.foldl (fun s i => if p i then s.activateFile i else s) s).opened =
        s.opened ∪ {i | i ∈ l ∧ p i} := by
  induction l generalizing s with
  | nil => simpa using h
  | cons i l ih =>
    rw [foldl_cons, union_mem_cons]
    by_cases hp : p i
    · simp only [hp, if_true, ← opened_activateFile]
      exact ih (s.activateFile i) (s.nodup_activateFile h i)
    · simp only [hp]
      exact ih s h

/-- At the beginning there are no iterators. -/
lemma nodup_cleared : (cleared : L0RangeScanIterator L).Nodup := nodup_nil

/-- `Seek` opens the files whose range has the target. -/
lemma addOverlappingFiles_cleared (target : κ) :
    (cleared.addOverlappingFiles target : L0RangeScanIterator L).Nodup ∧
      (cleared.addOverlappingFiles target : L0RangeScanIterator L).opened =
        {i | (L.file i).inRange target} := by
  obtain ⟨hn, ho⟩ := foldl_activateFile (cleared : L0RangeScanIterator L)
    (fun i => (L.file i).inRange target) (finRange _) nodup_cleared
  exact ⟨hn, by simpa [addOverlappingFiles] using ho⟩

/-- `SeekToFirst` and `SeekToLast` open all files. -/
lemma activateAll_cleared : (cleared.activateAll : L0RangeScanIterator L).Nodup ∧
      (cleared.activateAll : L0RangeScanIterator L).opened = Set.univ := by
  obtain ⟨hn, ho⟩ := foldl_activateFile (cleared : L0RangeScanIterator L)
    (fun _ => true) (finRange _) nodup_cleared
  exact ⟨by simpa [activateAll] using hn, by simpa [activateAll, Set.eq_univ_iff_forall] using ho⟩

/-! ## Where the best iterator stands -/

/-- The current key is the best one of the positions. -/
lemma key?_findBest (better : κ → κ → Bool) : (s.findBest better).key? =
      (bestOf better 0 none (s.active.map ActiveIterator.pos)).map Prod.snd := by
  unfold key? findBest
  cases h : bestOf better 0 none (s.active.map pos) with
  | none => simp
  | some p =>
    have hget := bestOf_getElem? h
    rw [getElem?_map, Option.map_eq_some_iff] at hget
    obtain ⟨a, ha, hpos⟩ := hget
    simp [ha, hpos]

/-- Going forward, the current key is the first position. -/
lemma findSmallest_isFirst : IsFirst {k | ∃ a ∈ s.active, a.pos = some k} s.findSmallest.key? := by
  rw [findSmallest, key?_findBest]
  simpa using bestOf_isFirst (s.active.map pos)

/-- Going backward, it is the last one. -/
lemma findLargest_isLast : IsLast {k | ∃ a ∈ s.active, a.pos = some k} s.findLargest.key? := by
  rw [findLargest, key?_findBest]
  simpa using bestOf_isLast (s.active.map pos)

/-- The keys of the open files that meet `p`. -/
def openKeys (s : L0RangeScanIterator L) (p : κ → Prop) : Set κ :=
  {k | ∃ i ∈ s.opened, k ∈ (L.file i).entries ∧ p k}

/-- The keys of the open files, read off the active iterators. -/
lemma openKeys_eq (p : κ → Prop) :
    s.openKeys p = {k | ∃ a ∈ s.active, k ∈ (L.file a.fileIndex).entries ∧ p k} := by
  ext k
  simp only [openKeys, opened, Set.mem_ofPred_eq]
  constructor
  · rintro ⟨_, ⟨a, ha, rfl⟩, hk⟩
    exact ⟨a, ha, hk⟩
  · rintro ⟨a, ha, hk⟩
    exact ⟨_, ⟨a, ha, rfl⟩, hk⟩

variable {p : κ → Prop} {move : L0File κ → Option κ}

/-- `FindSmallest` finds the first key of the open files that meets `p`, if every iterator
stands on the first one of its own file. -/
lemma Ahead.findSmallest (h : s.Ahead p) : IsFirst (s.openKeys p) s.findSmallest.key? := by
  rw [openKeys_eq]
  exact s.findSmallest_isFirst.of_cursors h

/-- With every iterator at its last key, the largest is the last of all open files. -/
lemma Behind.findLargest (h : s.Behind p) : IsLast (s.openKeys p) s.findLargest.key? := by
  rw [openKeys_eq]
  exact s.findLargest_isLast.of_cursors h

/-- A move to first keys puts the iterator ahead. -/
lemma ahead_moveAll (h : ∀ f : L0File κ, IsFirst {k | k ∈ f.entries ∧ p k} (move f)) :
    (s.moveAll move).Ahead p := by
  intro a ha
  simp only [moveAll, mem_map] at ha
  obtain ⟨b, -, rfl⟩ := ha
  exact h _

/-- A move to last keys puts it behind. -/
lemma behind_moveAll (h : ∀ f : L0File κ, IsLast {k | k ∈ f.entries ∧ p k} (move f)) :
    (s.moveAll move).Behind p := by
  intro a ha
  simp only [moveAll, mem_map] at ha
  obtain ⟨b, -, rfl⟩ := ha
  exact h _

end L0RangeScanIterator

end BucketLSM
