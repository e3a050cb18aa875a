import BucketLSM.Lib.Cursor
import BucketLSM.Format
import Mathlib.Data.List.FinRange

/-!
# The range-aware level-0 scan

`L0RangeScanIterator` (`db/version_set.cc`) scans the level-0 files as one sorted sequence
and opens the table iterator of a file only when the scan position enters the key range of
that file.

A table iterator stands on a key of its file or is not valid. The keys of a table are
strictly increasing, so the key says where the iterator stands, and the moves of a table
iterator are searches in the list of keys. Values are stored beside the keys and are read
through the same position; they are left out.
-/

namespace BucketLSM

/-! ## Level-0 files -/

/-- A level-0 file as the scan sees it: the bounds recorded in its metadata and its point
keys. Range tombstones widen the bounds, so these need not be keys of the file, and a file
may have no point key at all. -/
structure L0File (κ : Type) [LinearOrder κ] where
  smallest : κ
  largest : κ
  entries : List κ
  sorted : entries.Pairwise (· < ·)
  bounds : ∀ k ∈ entries, smallest ≤ k ∧ k ≤ largest

/-- The files of level 0. An internal key is written once, so no two files share one. -/
structure L0Files (κ : Type) [LinearOrder κ] where
  files : List (L0File κ)
  distinct : files.Pairwise fun f g => ∀ k ∈ f.entries, k ∉ g.entries

variable {κ : Type} [LinearOrder κ]

namespace L0File

/-- A file with one entry. -/
def single (k : κ) : L0File κ where
  smallest := k
  largest := k
  entries := [k]
  sorted := List.pairwise_singleton _ k
  bounds := fun _ hk => List.mem_singleton.1 hk ▸ ⟨le_rfl, le_rfl⟩

variable (f : L0File κ)

/-- `smallest_key <= key && key <= largest_key`. -/
def inRange (key : κ) : Bool := f.smallest ≤ key && key ≤ f.largest

/-- `Seek` of the table iterator. -/
def seek (target : κ) : Option κ := f.entries.find? (target ≤ ·)

/-- `SeekForPrev` of the table iterator. -/
def seekForPrev (target : κ) : Option κ := f.entries.reverse.find? (· ≤ target)

/-- `SeekToFirst` of the table iterator. -/
def seekToFirst : Option κ := f.entries.head?

/-- `SeekToLast` of the table iterator. -/
def seekToLast : Option κ := f.entries.getLast?

/-- `Next` of the table iterator standing on `key`. -/
def next (key : κ) : Option κ := f.entries.find? (key < ·)

/-- `Prev` of the table iterator standing on `key`. -/
def prev (key : κ) : Option κ := f.entries.reverse.find? (· < key)

end L0File

namespace L0Files

variable (L : L0Files κ)

/-- The file at an index of level 0. -/
def file (i : Fin L.files.length) : L0File κ := L.files.get i

/-- The point keys of the level. -/
def keys : Set κ := {k | ∃ i, k ∈ (L.file i).entries}

/-- The sorted merge of the files' point keys. -/
def merged : List κ := (L.files.flatMap L0File.entries).insertionSort (· ≤ ·)

end L0Files

/-! ## The iterator -/

/-- `ActiveIterator`: an open table iterator and its position. -/
structure ActiveIterator (n : ℕ) (κ : Type) where
  fileIndex : Fin n
  pos : Option κ
deriving DecidableEq, Repr

/-- `L0RangeScanIterator`. The flag `iterator_active` of a file is set and cleared together
with its entry in `active`; see `iteratorActive`. -/
structure L0RangeScanIterator (L : L0Files κ) where
  active : List (ActiveIterator L.files.length κ)
  currentIndex : ℕ
deriving DecidableEq, Repr

namespace L0RangeScanIterator

variable {L : L0Files κ} (s : L0RangeScanIterator L)

/-- The iterator as constructed and after `ClearAllIterators`. -/
def cleared : L0RangeScanIterator L := ⟨[], 0⟩

/-- `key()` while `Valid()`, nothing otherwise. -/
def key? : Option κ := (s.active[s.currentIndex]?).bind ActiveIterator.pos

/-- `Valid`. -/
def valid : Bool := s.key?.isSome

/-- The flag `iterator_active` of a file. -/
def iteratorActive (i : Fin L.files.length) : Bool := s.active.any fun a => a.fileIndex = i

/-- `ActivateFile` on a file that is not open, followed by a move of the new iterator. -/
def activateAt (i : Fin L.files.length) (pos : Option κ) : L0RangeScanIterator L :=
  { s with active := s.active ++ [⟨i, pos⟩] }

/-- `ActivateFile`: a new table iterator is not positioned. -/
def activateFile (i : Fin L.files.length) : L0RangeScanIterator L :=
  if s.iteratorActive i then s else s.activateAt i none

/-- Points `current_index_` at the best position; the number of iterators if none is valid. -/
def findBest (better : κ → κ → Bool) : L0RangeScanIterator L :=
  { s with currentIndex :=
      match Cursor.bestOf better 0 none (s.active.map ActiveIterator.pos) with
      | some (i, _) => i
      | none => s.active.length }

/-- `FindSmallest`. -/
def findSmallest : L0RangeScanIterator L := s.findBest fun a b => decide (a < b)

/-- `FindLargest`. -/
def findLargest : L0RangeScanIterator L := s.findBest fun a b => decide (b < a)

/-- Moves every open iterator. -/
def moveAll (move : L0File κ → Option κ) : L0RangeScanIterator L :=
  { s with active := s.active.map fun a => { a with pos := move (L.file a.fileIndex) } }

/-- Moves the current iterator. -/
def moveCurrent (a : ActiveIterator L.files.length κ) (pos : Option κ) : L0RangeScanIterator L :=
  { s with active := s.active.set s.currentIndex { a with pos := pos } }

/-- `AddOverlappingFiles`. -/
def addOverlappingFiles (target : κ) : L0RangeScanIterator L :=
  (List.finRange L.files.length).foldl
    (fun s i => if (L.file i).inRange target then s.activateFile i else s) s

/-- `AddOverlappingFilesForPrev`, the same loop. -/
def addOverlappingFilesForPrev (target : κ) : L0RangeScanIterator L :=
  s.addOverlappingFiles target

/-- The loop of `SeekToFirst` and `SeekToLast` that opens every file. -/
def activateAll : L0RangeScanIterator L :=
  (List.finRange L.files.length).foldl activateFile s

/-- `Seek`. -/
def seek (target : κ) : L0RangeScanIterator L :=
  ((cleared.addOverlappingFiles target).moveAll (L0File.seek · target)).findSmallest

/-- `SeekForPrev`. -/
def seekForPrev (target : κ) : L0RangeScanIterator L :=
  ((cleared.addOverlappingFilesForPrev target).moveAll (L0File.seekForPrev · target)).findLargest

/-- `SeekToFirst`. -/
def seekToFirst : L0RangeScanIterator L :=
  (cleared.activateAll.moveAll L0File.seekToFirst).findSmallest

/-- `SeekToLast`. -/
def seekToLast : L0RangeScanIterator L :=
  (cleared.activateAll.moveAll L0File.seekToLast).findLargest

/-- One round of `MaybeAddMoreFilesForward`. -/
def maybeAddFile (currentKey : κ) (p : L0RangeScanIterator L × Bool) (i : Fin L.files.length) :
    L0RangeScanIterator L × Bool :=
  if p.1.iteratorActive i then p
  else if (L.file i).inRange currentKey then
    (p.1.activateAt i ((L.file i).seek currentKey), true)
  else p

/-- `MaybeAddMoreFilesForward`. -/
def maybeAddMoreFilesForward (currentKey : κ) : L0RangeScanIterator L :=
  let p := (List.finRange L.files.length).foldl (maybeAddFile currentKey) (s, false)
  if p.2 then p.1.findSmallest else p.1

/-- The loop of `TryActivateNextFile`: the closed file with the least smallest key above
`lastKey`, the first such file on a tie. -/
def bestFile (lastKey : κ) : Option (Fin L.files.length) :=
  Cursor.argminFrom (fun i => !s.iteratorActive i && lastKey < (L.file i).smallest)
    (fun i => (L.file i).smallest) none (List.finRange L.files.length)

/-- `TryActivateNextFile`. -/
def tryActivateNextFile (lastKey : κ) : L0RangeScanIterator L :=
  match s.bestFile lastKey with
  | none => s
  | some i =>
    let s := (s.activateAt i (L.file i).seekToFirst).findSmallest
    match s.key? with
    | some key => s.maybeAddMoreFilesForward key
    | none => s

/-- `Next`, called while `Valid()`. -/
def next : L0RangeScanIterator L :=
  match s.active[s.currentIndex]? with
  | some a =>
    match a.pos with
    | some lastKey =>
      let s := (s.moveCurrent a ((L.file a.fileIndex).next lastKey)).findSmallest
      match s.key? with
      | some key => s.maybeAddMoreFilesForward key
      | none => s.tryActivateNextFile lastKey
    | none => s
  | none => s

/-- `Prev`, called while `Valid()`. -/
def prev : L0RangeScanIterator L :=
  match s.active[s.currentIndex]? with
  | some a =>
    match a.pos with
    | some key => (s.moveCurrent a ((L.file a.fileIndex).prev key)).findLargest
    | none => s
  | none => s

/-- `Next` until the iterator is not valid reads exactly the listed keys. -/
def Yields : L0RangeScanIterator L → List κ → Prop
  | s, [] => s.key? = none
  | s, k :: l => s.key? = some k ∧ Yields s.next l

instance decidableYields : (s : L0RangeScanIterator L) → (l : List κ) → Decidable (s.Yields l)
  | s, [] => inferInstanceAs (Decidable (s.key? = none))
  | s, k :: l =>
    have := decidableYields s.next l
    inferInstanceAs (Decidable (s.key? = some k ∧ Yields s.next l))

end L0RangeScanIterator

end BucketLSM
