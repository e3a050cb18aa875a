import BucketLSM.Scan.Forward

/-!
# The level-0 part of a read iterator

`Version::AddIteratorsForLevel` adds the level-0 files to the merging iterator of a read.
Without `new_range_scan` every file contributes its point iterator and its range tombstones;
with it, one `L0RangeScanIterator` is added for the whole level, and nothing else. A range
scan starts at the first key or at a target, and what it sees depends on what the children
read from there on.
-/

namespace BucketLSM

/-- A range tombstone: the versions below `seq` of the user keys in `[start, limit)` are
deleted. -/
structure RangeTombstone (K : Type) where
  start : K
  limit : K
  seq : ℕ
deriving DecidableEq, Repr

variable {K : Type} [LinearOrder K]

/-- The tombstone deletes the version `seq` of the user key, for a reader at `snapshot`. -/
def RangeTombstone.covers (t : RangeTombstone K) (userKey : K) (seq snapshot : ℕ) : Prop :=
  t.start ≤ userKey ∧ userKey < t.limit ∧ seq < t.seq ∧ t.seq ≤ snapshot

/-- A level-0 table file with its range tombstones. The file's bounds enclose them, so that
truncating them to the bounds changes nothing. -/
structure L0Table (K : Type) [LinearOrder K] extends L0File (InternalKey K) where
  tombstones : List (RangeTombstone K)
  tombstoneBounds : ∀ t ∈ tombstones, smallest.userKey ≤ t.start ∧ t.limit ≤ largest.userKey

/-- The table files of level 0. -/
structure L0Tables (K : Type) [LinearOrder K] where
  tables : List (L0Table K)
  distinct : (tables.map L0Table.toL0File).Pairwise fun f g => ∀ k ∈ f.entries, k ∉ g.entries

/-- The files as the range-aware scan sees them. -/
def L0Tables.files (T : L0Tables K) : L0Files (InternalKey K) :=
  ⟨T.tables.map L0Table.toL0File, T.distinct⟩

/-- A point iterator below the merging iterator. -/
inductive PointIterator (T : L0Tables K)
  | table (f : L0Table K)
  | l0RangeScan

/-- A child of the merging iterator: a point iterator and the range tombstone iterator that
goes with it, absent when there is nothing to iterate. -/
structure MergeChild (T : L0Tables K) where
  point : PointIterator T
  tombstones : Option (List (RangeTombstone K))

/-- The tombstone iterator `TableCache::NewIterator` hands out for a file. -/
def L0Table.tombstoneIter (f : L0Table K) : Option (List (RangeTombstone K)) :=
  if f.tombstones = [] then none else some f.tombstones

/-- `Version::AddIteratorsForLevel` for level 0. -/
def addIteratorsForLevel0 (newRangeScan ignoreRangeDeletions : Bool) (T : L0Tables K) :
    List (MergeChild T) :=
  if T.tables.length = 0 then []
  else if newRangeScan then [⟨.l0RangeScan, none⟩]
  else T.tables.map fun f =>
    ⟨.table f, if ignoreRangeDeletions then none else f.tombstoneIter⟩

variable {T : L0Tables K}

/-- Where a range scan starts: `SeekToFirst`, or `Seek` to a target. -/
inductive ScanStart (K : Type)
  | seekToFirst
  | seek (target : InternalKey K)

namespace ScanStart

/-- The key is not before the start. -/
def Reaches : ScanStart K → InternalKey K → Prop
  | .seekToFirst, _ => True
  | .seek target, k => target ≤ k

/-- The range-aware iterator of the level at the start. -/
def l0RangeScan (T : L0Tables K) : ScanStart K → L0RangeScanIterator T.files
  | .seekToFirst => .seekToFirst
  | .seek target => .seek target

/-- From the start on the range-aware iterator misses no key of the level. From the first key it
never does. -/
def Complete (T : L0Tables K) : ScanStart K → Prop
  | .seekToFirst => True
  | .seek target => L0RangeScanIterator.ForwardComplete T.files target

end ScanStart

variable (start : ScanStart K)

/-- The keys a point iterator reads from the start of the scan on. -/
def PointIterator.Reads : PointIterator T → InternalKey K → Prop
  | .table f, k => k ∈ f.entries ∧ start.Reaches k
  | .l0RangeScan, k => ∃ l, (start.l0RangeScan T).Yields l ∧ k ∈ l

variable (children : List (MergeChild T))

/-- The point keys the children expose to a scan. -/
def exposedPoints : Set (InternalKey K) :=
  {k | ∃ c ∈ children, c.point.Reads start k}

/-- The range tombstones the children expose. -/
def exposedTombstones : Set (RangeTombstone K) :=
  {t | ∃ c ∈ children, ∃ ts ∈ c.tombstones, t ∈ ts}

/-- Whether the newest version of a key being of this type makes the key visible. -/
def ValueType.isValue : ValueType → Bool
  | .value | .merge | .blobIndex | .wideColumnEntity | .valuePreferredSeqno => true
  | _ => false

/-- A scan at `snapshot` sees the user key: of the versions it comes to, the newest one up to
the snapshot is a value that no range tombstone covers. -/
def Visible (snapshot : ℕ) (userKey : K) : Prop :=
  ∃ k ∈ exposedPoints start children, k.userKey = userKey ∧ k.sequence ≤ snapshot ∧
    (∀ k' ∈ exposedPoints start children, k'.userKey = userKey → k'.sequence ≤ snapshot →
      k'.sequence ≤ k.sequence) ∧
    k.type.isValue ∧ ∀ t ∈ exposedTombstones children, ¬ t.covers userKey k.sequence snapshot

open L0RangeScanIterator

/-- A scan reads one list of keys. -/
lemma yields_unique {κ : Type} [LinearOrder κ] {L : L0Files κ} {s : L0RangeScanIterator L}
    {l l' : List κ} (h : s.Yields l) (h' : s.Yields l') : l = l' := by
  induction l generalizing s l' with
  | nil =>
    cases l' with
    | nil => rfl
    | cons k l' =>
      have hkey : s.key? = none := h
      exact absurd (hkey.symm.trans h'.1) (by simp)
  | cons k l ih =>
    cases l' with
    | nil =>
      have hkey : s.key? = none := h'
      exact absurd (hkey.symm.trans h.1) (by simp)
    | cons k' l' =>
      rw [Option.some.inj (h.1.symm.trans h'.1), ih h.2 h'.2]

lemma mem_keys_files (k : InternalKey K) : k ∈ T.files.keys ↔ ∃ f ∈ T.tables, k ∈ f.entries := by
  rw [← L0Files.mem_merged, L0Files.merged, List.mem_insertionSort, List.mem_flatMap]
  simp [L0Tables.files]

/-- The point keys of the level from the start of a scan on. -/
def levelPoints (T : L0Tables K) : Set (InternalKey K) :=
  {k | (∃ f ∈ T.tables, k ∈ f.entries) ∧ start.Reaches k}

/-- The range-aware iterator reads what the files hold from the target on exactly when it
misses nothing: it reads in order, so that the keys determine the list. -/
lemma seek_reads_iff (target : InternalKey K) :
    {k | (PointIterator.l0RangeScan : PointIterator T).Reads (.seek target) k} =
        levelPoints (.seek target) T ↔ ForwardComplete T.files target := by
  have hmem : ∀ k, k ∈ T.files.merged.filter (target ≤ ·) ↔ k ∈ levelPoints (.seek target) T := by
    intro k
    rw [List.mem_filter, L0Files.mem_merged, mem_keys_files, decide_eq_true_iff]
    rfl
  rw [← yields_seek_iff]
  constructor
  · intro heq
    cases hm : T.files.merged.filter (target ≤ ·) with
    | nil =>
      -- there is nothing to read, and every list that is read is empty
      rw [← hm, yields_seek_iff]
      have hnone : ∀ k ∈ T.files.keys, ¬ target ≤ k := by
        intro k hk hle
        have hin := (hmem k).2 ⟨(mem_keys_files k).1 hk, hle⟩
        rw [hm] at hin
        exact absurd hin List.not_mem_nil
      exact ⟨fun e he => absurd he.1.2 (hnone e he.1.1), fun c q hc hle => absurd hle (hnone c hc)⟩
    | cons e rest =>
      rw [← hm]
      have hreads : ∀ k, k ∈ levelPoints (.seek target) T →
          ∃ l, (seek target : L0RangeScanIterator T.files).Yields l ∧ k ∈ l := by
        intro k hk
        rw [← heq] at hk
        exact hk
      obtain ⟨l, hl, -⟩ := hreads e ((hmem e).1 (hm ▸ List.mem_cons_self))
      have hsame : ∀ k, k ∈ l ↔ k ∈ T.files.merged.filter (target ≤ ·) := by
        intro k
        rw [hmem]
        constructor
        · intro hk
          rw [← heq]
          exact ⟨l, hl, hk⟩
        · intro hk
          obtain ⟨l', hl', hk'⟩ := hreads k hk
          rwa [yields_unique hl hl']
      rwa [← List.Pairwise.eq_of_mem_iff (sorted_of_yields_seek hl)
        (T.files.merged_sorted.filter _) hsame]
  · intro hl
    ext k
    rw [← hmem]
    constructor
    · rintro ⟨l', hl', hk⟩
      rwa [yields_unique hl hl']
    · intro hk
      exact ⟨_, hl, hk⟩

/-- The same for both ways of starting a scan. -/
lemma l0RangeScan_reads_iff : {k | (PointIterator.l0RangeScan : PointIterator T).Reads start k} =
      levelPoints start T ↔ start.Complete T := by
  cases start with
  | seek target => exact seek_reads_iff target
  | seekToFirst =>
    refine iff_of_true ?_ trivial
    ext k
    have hmem : k ∈ levelPoints .seekToFirst T ↔ k ∈ T.files.merged := by
      rw [L0Files.mem_merged, mem_keys_files]
      exact and_iff_left trivial
    rw [hmem]
    constructor
    · rintro ⟨l, hl, hk⟩
      rwa [yields_unique (yields_seekToFirst T.files) hl]
    · intro hk
      exact ⟨_, yields_seekToFirst T.files, hk⟩

lemma addIteratorsForLevel0_scan (ignore : Bool) : addIteratorsForLevel0 true ignore T =
      if T.tables = [] then [] else [⟨.l0RangeScan, none⟩] := by
  simp [addIteratorsForLevel0]

lemma addIteratorsForLevel0_tables (ignore : Bool) : addIteratorsForLevel0 false ignore T =
      T.tables.map fun f => ⟨.table f, if ignore then none else f.tombstoneIter⟩ := by
  cases h : T.tables <;> simp [addIteratorsForLevel0, h]

/-- The table iterators expose all point keys of the level. -/
lemma exposedPoints_tables (ignore : Bool) :
    exposedPoints start (addIteratorsForLevel0 false ignore T) = levelPoints start T := by
  ext k
  simp only [exposedPoints, addIteratorsForLevel0_tables, List.mem_map, Set.mem_ofPred_eq,
    levelPoints]
  constructor
  · rintro ⟨_, ⟨f, hf, rfl⟩, hk, hreach⟩
    exact ⟨⟨f, hf, hk⟩, hreach⟩
  · rintro ⟨⟨f, hf, hk⟩, hreach⟩
    exact ⟨_, ⟨f, hf, rfl⟩, hk, hreach⟩

/-- The range-aware iterator exposes them exactly for the starts it is complete for. -/
lemma exposedPoints_newRangeScan_iff (ignore : Bool) :
    exposedPoints start (addIteratorsForLevel0 true ignore T) = levelPoints start T ↔
      start.Complete T := by
  rw [← l0RangeScan_reads_iff]
  by_cases h : T.tables = []
  · -- without files the iterator is not even added; it would read nothing
    have hnone : levelPoints start T = ∅ := by simp [levelPoints, h]
    have hcomplete : start.Complete T := by
      have hkeys : ∀ k, k ∉ T.files.keys := fun k hk => by simpa [h] using (mem_keys_files k).1 hk
      cases start with
      | seekToFirst => trivial
      | seek target =>
        exact ⟨fun e he => absurd he.1.1 (hkeys e), fun c q hc => absurd hc (hkeys c)⟩
    rw [l0RangeScan_reads_iff, hnone]
    refine iff_of_true ?_ hcomplete
    simp [exposedPoints, addIteratorsForLevel0_scan, h]
  · simp [exposedPoints, addIteratorsForLevel0_scan, h]

lemma exposedTombstones_newRangeScan (ignore : Bool) :
    exposedTombstones (addIteratorsForLevel0 true ignore T) = ∅ := by
  by_cases h : T.tables = [] <;> simp [exposedTombstones, addIteratorsForLevel0_scan, h]

lemma exposedTombstones_tables : exposedTombstones (addIteratorsForLevel0 false false T) =
      {t | ∃ f ∈ T.tables, t ∈ f.tombstones} := by
  have hiter : ∀ (f : L0Table K) t, (∃ ts ∈ f.tombstoneIter, t ∈ ts) ↔ t ∈ f.tombstones := by
    intro f t
    by_cases h : f.tombstones = [] <;> simp [L0Table.tombstoneIter, h]
  ext t
  simp only [exposedTombstones, addIteratorsForLevel0_tables, List.mem_map, Bool.false_eq_true,
    if_false, Set.mem_ofPred_eq]
  constructor
  · rintro ⟨_, ⟨f, hf, rfl⟩, ht⟩
    exact ⟨f, hf, (hiter f t).1 ht⟩
  · rintro ⟨f, hf, ht⟩
    exact ⟨_, ⟨f, hf, rfl⟩, (hiter f t).2 ht⟩

/-- A level with the value `"a"` at sequence 1 in one file and, in another, the deletion of
`["a", "b")` at sequence 2. -/
def deletedKeyLevel : L0Tables Slice :=
  ⟨[⟨⟨⟨[97], 2, .rangeDeletion⟩, ⟨[98], maxSequenceNumber, .rangeDeletion⟩, [], by decide,
      by decide⟩, [⟨[97], [98], 2⟩], by decide⟩,
    ⟨⟨⟨[97], 1, .value⟩, ⟨[97], 1, .value⟩, [⟨[97], 1, .value⟩], by decide, by decide⟩, [],
      by decide⟩], by decide⟩

end BucketLSM
