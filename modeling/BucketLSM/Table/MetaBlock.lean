import BucketLSM.Bytes
import BucketLSM.Lib.Wire

/-!
# Scans of a meta block

A block is a sequence of entries, followed by the offsets of the restart points and a footer with
their number. `Block::Block` takes the footer as it comes, in 32-bit arithmetic. The lengths at the
front of an entry are checked against the bytes left in front of the offsets, in 32-bit arithmetic
too, in which the sum of two lengths wraps.

A scan is modelled with the bytes it looks at. They are all in the block iff the first restart
point is, every accepted entry has lengths whose sum does not wrap, and the scan never comes to a
restart point past the end of the block (`scan_inBlock_iff`).
-/

namespace BucketLSM.MetaBlock

open Lib Lib.Wire

/-- What is decoded of an entry, and the bytes after it up to the limit. -/
structure EntryHeader where
  shared : ℕ
  nonShared : ℕ
  valueLength : ℕ
  rest : Bytes
deriving DecidableEq

/-- The lengths of an entry, on the fast path one byte each. -/
def decodeLengths (input : Bytes) : Option EntryHeader :=
  match input with
  | s :: n :: v :: rest =>
    if (s.val ||| n.val ||| v.val) < 128 then some ⟨s, n, v, rest⟩
    else
      (getVarint 32 5 input).bind fun shared =>
      (getVarint 32 5 shared.2).bind fun nonShared =>
      (getVarint 32 5 nonShared.2).map fun valueLength =>
        ⟨shared.1, nonShared.1, valueLength.1, valueLength.2⟩
  | _ => none

/-- `CheckAndDecodeEntry` on the bytes from `p` to `limit`. The result `none` is `nullptr`. -/
def checkAndDecodeEntry (input : Bytes) : Option EntryHeader :=
  (decodeLengths input).filter fun h =>
    ¬ h.rest.length % 2 ^ 32 < (h.nonShared + h.valueLength) % 2 ^ 32

/-- Bytes that are looked at: the offset of the first one, and how many. -/
abbrev Access := ℕ × ℕ

/-- A block, and the memory from its first byte on. -/
structure Block where
  data : ℕ → Fin 256
  size : ℕ
  restarts : ℕ
  numRestarts : ℕ

/-- The bytes of the memory from an offset on. -/
def bytes (data : ℕ → Fin 256) (offset count : ℕ) : Bytes := (List.range' offset count).map data

/-- `DecodeFixed16` and `DecodeFixed32`, for `w` bytes. -/
def decodeFixed (data : ℕ → Fin 256) (offset w : ℕ) : ℕ :=
  LittleEndian.decode (bytes data offset w)

/-- `Block::Block` on contents of `size` bytes. A size of 0 marks an error. -/
def Block.new (data : ℕ → Fin 256) (size : ℕ) : Block :=
  if size < 4 then ⟨data, 0, 0, 0⟩
  else
    let footer := decodeFixed data (size - 4) 4
    -- a hash index is announced by the top bit, in blocks of up to 64KiB
    if 2 ^ 16 < size ∨ footer < 2 ^ 31 then
      let restarts := (((size : ℤ) - (1 + footer) % 2 ^ 32 * 4) % 2 ^ 32).toNat
      ⟨data, if size - 4 < restarts then 0 else size, restarts, footer⟩
    else
      let numRestarts := footer % 2 ^ 31
      if size < 6 then ⟨data, 0, 0, numRestarts⟩
      else
        -- `DataBlockHashIndex::Initialize`, in 16-bit arithmetic
        let mapOffset := (((size : ℤ) - 6 - decodeFixed data (size - 6) 2) % 2 ^ 16).toNat
        let restarts := (((mapOffset : ℤ) - numRestarts * 4) % 2 ^ 32).toNat
        ⟨data, if mapOffset < restarts then 0 else size, restarts, numRestarts⟩

namespace Block

/-- `NewMetaIterator` makes an iterator that can be positioned. -/
def Iterable (b : Block) : Prop := 8 ≤ b.size ∧ b.numRestarts ≠ 0

instance (b : Block) : Decidable b.Iterable := inferInstanceAs (Decidable (_ ∧ _))

/-- The bytes of the restart point `index`. -/
def restartPoint (b : Block) (index : ℕ) : Access := (b.restarts + 4 * index, 4)

/-- `GetRestartPoint`. -/
def getRestartPoint (b : Block) (index : ℕ) : ℕ :=
  decodeFixed b.data (b.restartPoint index).1 4

/-- The loop of `ParseNextKey` that moves the restart index on to the entry at `current`, with the
restart points it looks at. -/
def skipRestarts (b : Block) (current : ℕ) : ℕ → ℕ → List Access × ℕ
  | 0, index => ([], index)
  | fuel + 1, index =>
    if index + 1 < b.numRestarts then
      if b.getRestartPoint (index + 1) < current then
        let rest := b.skipRestarts current fuel (index + 1)
        (b.restartPoint (index + 1) :: rest.1, rest.2)
      else ([b.restartPoint (index + 1)], index)
    else ([], index)

/-- The bytes are in the block. -/
def Covers (b : Block) (access : Access) : Prop := access.1 + access.2 ≤ b.size

instance (b : Block) (access : Access) : Decidable (b.Covers access) :=
  inferInstanceAs (Decidable (_ ≤ _))

/-- The restart point after `index`, or the last one if there is none, is in the block. -/
def CoversNext (b : Block) (index : ℕ) : Prop :=
  b.Covers (b.restartPoint (min (index + 1) (b.numRestarts - 1)))

instance (b : Block) (index : ℕ) : Decidable (b.CoversNext index) :=
  inferInstanceAs (Decidable (b.Covers _))

end Block

/-- A `MetaBlockIter`: the key, the offsets and sizes of the part of it that was read last and of
the value, and the restart index. -/
structure MetaBlockIter where
  rawKey : Bytes
  keyDelta : Access
  value : Access
  restartIndex : ℕ

/-- `NextEntryOffset`. -/
def MetaBlockIter.nextEntryOffset (it : MetaBlockIter) : ℕ := (it.value.1 + it.value.2) % 2 ^ 32

/-- `ParseNextKey<CheckAndDecodeEntry>`, with the bytes it looks at: those of the lengths, which end
at the limit, the key and the value. The result `none` is an iterator that is not valid, at the end
of the block or with a corruption. -/
def parseNextKey (b : Block) (it : MetaBlockIter) : List Access × Option MetaBlockIter :=
  let current := it.nextEntryOffset
  if b.restarts ≤ current then ([], none)
  else
    let entry : Access := (current, b.restarts - current)
    match (checkAndDecodeEntry (bytes b.data entry.1 entry.2)).filter
      fun h => ¬ it.rawKey.length < h.shared with
    | none => ([entry], none)
    | some h =>
      let p := b.restarts - h.rest.length
      let skipped := if h.shared = 0 then b.skipRestarts current b.numRestarts it.restartIndex
        else ([], it.restartIndex)
      (entry :: (p, h.nonShared) :: (p + h.nonShared, h.valueLength) :: skipped.1, some
        { rawKey := it.rawKey.take h.shared ++ bytes b.data p h.nonShared
          keyDelta := (p, h.nonShared)
          value := (p + h.nonShared, h.valueLength)
          restartIndex := skipped.2 })

/-- `SeekToRestartPoint` for the first restart point. -/
def seekToRestartPoint (b : Block) : MetaBlockIter := ⟨[], (0, 0), (b.getRestartPoint 0, 0), 0⟩

/-- `SeekToFirst` of the iterator that `NewMetaIterator` makes. -/
def seekToFirst (b : Block) : List Access × Option MetaBlockIter :=
  if b.Iterable then
    let first := parseNextKey b (seekToRestartPoint b)
    (b.restartPoint 0 :: first.1, first.2)
  else ([], none)

/-- `SeekToFirst`, and as many times `Next` while the iterator is valid. -/
def scan (b : Block) : ℕ → List Access × Option MetaBlockIter
  | 0 => seekToFirst b
  | n + 1 =>
    match (scan b n).2 with
    | none => scan b n
    | some it => ((scan b n).1 ++ (parseNextKey b it).1, (parseNextKey b it).2)

lemma length_getVarintLoop_le {bits steps shift result n : ℕ} {input rest : Bytes}
    (h : getVarintLoop bits steps shift result input = some (n, rest)) :
    rest.length ≤ input.length := by
  induction steps generalizing shift result input with
  | zero => simp [getVarintLoop] at h
  | succ steps ih =>
    cases input with
    | nil => simp [getVarintLoop] at h
    | cons byte input =>
      rw [getVarintLoop] at h
      split_ifs at h
      · exact (ih h).trans (Nat.le_succ _)
      · obtain ⟨-, rfl⟩ := Prod.mk.inj (Option.some.inj h)
        exact Nat.le_succ _

variable {input : Bytes} {h : EntryHeader}

lemma decodeLengths_spec (hh : decodeLengths input = some h) :
    h.nonShared < 2 ^ 32 ∧ h.valueLength < 2 ^ 32 ∧ h.rest.length ≤ input.length := by
  unfold decodeLengths at hh
  split at hh
  · rename_i s n v rest
    split_ifs at hh
    · obtain rfl := Option.some.inj hh
      have hn := n.isLt
      have hv := v.isLt
      simp only [List.length_cons]
      omega
    · obtain ⟨shared, hshared, hh⟩ := Option.bind_eq_some_iff.1 hh
      obtain ⟨nonShared, hnon, hh⟩ := Option.bind_eq_some_iff.1 hh
      obtain ⟨value, hvalue, rfl⟩ := Option.map_eq_some_iff.1 hh
      exact ⟨getVarint_lt hnon, getVarint_lt hvalue, (length_getVarintLoop_le hvalue).trans
        ((length_getVarintLoop_le hnon).trans (length_getVarintLoop_le hshared))⟩
  · exact absurd hh (by simp)

/-- The lengths that are accepted stay below the limit iff their sum does not wrap, or as many
bytes are left that the comparison wraps too. -/
lemma lengths_le_iff (hh : checkAndDecodeEntry input = some h) :
    h.nonShared + h.valueLength ≤ h.rest.length ↔
      h.nonShared + h.valueLength < 2 ^ 32 ∨ 2 ^ 32 ≤ h.rest.length := by
  obtain ⟨hdecode, hcheck⟩ := Option.filter_eq_some_iff.1 hh
  obtain ⟨hn, hv, -⟩ := decodeLengths_spec hdecode
  simp only [decide_eq_true_eq, not_lt] at hcheck
  omega

variable {b : Block} {it it' : MetaBlockIter}

/-- Restart points stand one after the other. -/
lemma Block.Covers.mono {i j : ℕ} (hj : b.Covers (b.restartPoint j)) (hle : i ≤ j) :
    b.Covers (b.restartPoint i) := by
  simp only [Block.Covers, Block.restartPoint] at hj ⊢
  omega

/-- The loop over the restart points only goes on, and does not leave their range. -/
lemma skipRestarts_bounds (current fuel : ℕ) {index : ℕ} (hindex : index < b.numRestarts) :
    index ≤ (b.skipRestarts current fuel index).2 ∧
      (b.skipRestarts current fuel index).2 < b.numRestarts := by
  induction fuel generalizing index with
  | zero => exact ⟨le_rfl, hindex⟩
  | succ fuel ih =>
    rw [Block.skipRestarts]
    split_ifs with hnext
    · exact ⟨(Nat.le_succ _).trans (ih hnext).1, (ih hnext).2⟩
    · exact ⟨le_rfl, hindex⟩
    · exact ⟨le_rfl, hindex⟩

/-- The loop over the restart points stays in the block iff the point it stops at does. -/
lemma skipRestarts_covers_iff (current : ℕ) {fuel index : ℕ} (hfuel : b.numRestarts ≤ index + fuel)
    (hindex : index < b.numRestarts) (hcovers : b.Covers (b.restartPoint index)) :
    (∀ r ∈ (b.skipRestarts current fuel index).1, b.Covers r) ↔
      b.CoversNext (b.skipRestarts current fuel index).2 := by
  induction fuel generalizing index with
  | zero => omega
  | succ fuel ih =>
    rw [Block.skipRestarts]
    split_ifs with hnext hskip
    · dsimp only
      rw [List.forall_mem_cons]
      have hbounds := skipRestarts_bounds current fuel hnext
      constructor
      · rintro ⟨hpoint, hrest⟩
        exact (ih (by omega) hnext hpoint).1 hrest
      · intro hlast
        have hpoint : b.Covers (b.restartPoint (index + 1)) := hlast.mono (by omega)
        exact ⟨hpoint, (ih (by omega) hnext hpoint).2 hlast⟩
    · rw [List.forall_mem_singleton, Block.CoversNext, min_eq_left (by omega)]
    · have hlast : min (index + 1) (b.numRestarts - 1) = index := by omega
      simp [Block.CoversNext, hlast, hcovers]

/-- An iterator that has looked at its restart point, in the block. -/
structure Placed (b : Block) (it : MetaBlockIter) : Prop where
  index_lt : it.restartIndex < b.numRestarts
  covers : b.Covers (b.restartPoint it.restartIndex)
  next : it.rawKey = [] ∨ b.CoversNext it.restartIndex

/-- The entry the iterator is on does not lead out of the block. -/
def Sound (b : Block) (it : MetaBlockIter) : Prop :=
  it.keyDelta.2 + it.value.2 < 2 ^ 32 ∧ b.CoversNext it.restartIndex

/-- A call that fails has looked at no more than the entries. -/
lemma parseNextKey_none (hcovers : b.Covers (b.restartPoint 0))
    (hparse : (parseNextKey b it).2 = none) : ∀ r ∈ (parseNextKey b it).1, b.Covers r := by
  simp only [Block.Covers, Block.restartPoint] at hcovers
  unfold parseNextKey at hparse ⊢
  dsimp only at hparse ⊢
  split_ifs at hparse ⊢ with hend
  · simp
  · split at hparse
    · simp only [List.forall_mem_singleton, Block.Covers]
      omega
    · cases hparse

/-- A call keeps the restart index in its range. -/
lemma parseNextKey_index_lt (hindex : it.restartIndex < b.numRestarts)
    (hparse : (parseNextKey b it).2 = some it') : it'.restartIndex < b.numRestarts := by
  unfold parseNextKey at hparse
  dsimp only at hparse
  split_ifs at hparse
  split at hparse
  · cases hparse
  · obtain rfl := Option.some.inj hparse
    dsimp only
    split_ifs
    · exact (skipRestarts_bounds _ _ hindex).2
    · exact hindex

/-- A call that reads an entry stays in the block iff the entry and the restart point it comes to
are sound. -/
lemma parseNextKey_some (hsize : b.size < 2 ^ 32) (hplaced : Placed b it)
    (hparse : (parseNextKey b it).2 = some it') :
    (∀ r ∈ (parseNextKey b it).1, b.Covers r) ↔ Sound b it' := by
  have hfirst := hplaced.covers.mono (Nat.zero_le _)
  simp only [Block.Covers, Block.restartPoint] at hfirst
  unfold parseNextKey at hparse ⊢
  dsimp only at hparse ⊢
  split_ifs at hparse ⊢ with hend
  split at hparse
  · cases hparse
  rename_i h hh
  obtain rfl := Option.some.inj hparse
  obtain ⟨hcheck, hshared⟩ := Option.filter_eq_some_iff.1 hh
  have hrest := (decodeLengths_spec (Option.filter_eq_some_iff.1 hcheck).1).2.2
  have hle := lengths_le_iff hcheck
  simp only [bytes, List.length_map, List.length_range'] at hrest
  have hlengths : (b.Covers (b.restarts - h.rest.length, h.nonShared) ∧
      b.Covers (b.restarts - h.rest.length + h.nonShared, h.valueLength)) ↔
      h.nonShared + h.valueLength < 2 ^ 32 := by
    simp only [Block.Covers]
    omega
  have hentry : b.Covers (it.nextEntryOffset, b.restarts - it.nextEntryOffset) := by
    simp only [Block.Covers]
    omega
  simp only [List.forall_mem_cons, hentry, true_and, Sound, ← and_assoc, hlengths]
  refine and_congr_right fun _ => ?_
  split_ifs with hzero
  · exact skipRestarts_covers_iff _ (by omega) hplaced.index_lt hplaced.covers
  · -- an entry that shares bytes is not the first one of a scan
    have hnext := hplaced.next.resolve_left fun hnil => by
      simp [hnil] at hshared
      omega
    simp [hnext]

/-- One call, whether it reads an entry or not. -/
lemma parseNextKey_covers_iff (hsize : b.size < 2 ^ 32) (hplaced : Placed b it) :
    (∀ r ∈ (parseNextKey b it).1, b.Covers r) ↔
      ∀ it', (parseNextKey b it).2 = some it' → Sound b it' := by
  cases hparse : (parseNextKey b it).2 with
  | none => simpa using parseNextKey_none (hplaced.covers.mono (Nat.zero_le _)) hparse
  | some it' => simpa using parseNextKey_some hsize hplaced hparse

/-- After a sound entry, the iterator is on a restart point in the block. -/
lemma Sound.placed (hindex : it.restartIndex < b.numRestarts) (h : Sound b it) : Placed b it :=
  ⟨hindex, h.2.mono (by omega), .inr h.2⟩

/-- The entries of `SeekToFirst` and of `n` calls of `Next` are sound. -/
def SoundUpTo (b : Block) (n : ℕ) : Prop :=
  ∀ m ≤ n, ∀ it, (scan b m).2 = some it → Sound b it

lemma soundUpTo_succ (n : ℕ) : SoundUpTo b (n + 1) ↔
    SoundUpTo b n ∧ ∀ it, (scan b (n + 1)).2 = some it → Sound b it := by
  constructor
  · intro h
    exact ⟨fun m hm => h m (hm.trans n.le_succ), h (n + 1) le_rfl⟩
  · rintro ⟨hn, hlast⟩ m hm
    rcases Nat.le_succ_iff.1 hm with hm | rfl
    · exact hn m hm
    · exact hlast

lemma scan_index_lt (hiter : b.Iterable) {n : ℕ} (hscan : (scan b n).2 = some it) :
    it.restartIndex < b.numRestarts := by
  induction n generalizing it with
  | zero =>
    rw [scan, seekToFirst, if_pos hiter] at hscan
    exact parseNextKey_index_lt (Nat.pos_of_ne_zero hiter.2) hscan
  | succ n ih =>
    rw [scan] at hscan
    split at hscan
    · exact ih hscan
    · next before hbefore => exact parseNextKey_index_lt (ih hbefore) hscan

/-- What a scan looks at is in the block iff the first restart point and all its entries are. -/
lemma scan_covers_iff (hsize : b.size < 2 ^ 32) (hiter : b.Iterable) (n : ℕ) :
    (∀ r ∈ (scan b n).1, b.Covers r) ↔ b.Covers (b.restartPoint 0) ∧ SoundUpTo b n := by
  induction n with
  | zero =>
    simp only [SoundUpTo, Nat.le_zero, forall_eq, scan, seekToFirst, if_pos hiter,
      List.forall_mem_cons]
    refine and_congr_right fun hfirst => ?_
    exact parseNextKey_covers_iff hsize ⟨Nat.pos_of_ne_zero hiter.2, hfirst, .inl rfl⟩
  | succ n ih =>
    rw [soundUpTo_succ, ← and_assoc, ← ih]
    cases hscan : (scan b n).2 with
    | none => simp [scan, hscan]
    | some it =>
      have hstep : scan b (n + 1) =
          ((scan b n).1 ++ (parseNextKey b it).1, (parseNextKey b it).2) := by
        rw [scan, hscan]
      rw [hstep, List.forall_mem_append]
      refine and_congr_right fun hreads => ?_
      exact parseNextKey_covers_iff hsize
        (((ih.1 hreads).2 n le_rfl it hscan).placed (scan_index_lt hiter hscan))

lemma size_new_le (data : ℕ → Fin 256) (size : ℕ) : (Block.new data size).size ≤ size := by
  unfold Block.new
  dsimp only
  split_ifs <;> first | exact Nat.zero_le size | exact le_refl size

/-- **Meta blocks.** An entry that `CheckAndDecodeEntry` accepts stays below the limit iff the sum
of its lengths fits 32 bits, or the number of bytes left does not. In a scan of any contents, all
bytes looked at are in the block iff the footer leads to a first restart point in the block, the
lengths of every entry that is accepted fit, and the restart points it comes to are in the block. -/
theorem scan_inBlock_iff (input : Bytes) (h : EntryHeader) (data : ℕ → Fin 256) (size n : ℕ)
    (hsize : size < 2 ^ 32) :
    (checkAndDecodeEntry input = some h → (h.nonShared + h.valueLength ≤ h.rest.length ↔
      h.nonShared + h.valueLength < 2 ^ 32 ∨ 2 ^ 32 ≤ h.rest.length)) ∧
    ((∀ r ∈ (scan (Block.new data size) n).1, r.1 + r.2 ≤ (Block.new data size).size) ↔
      ((Block.new data size).Iterable →
        (Block.new data size).Covers ((Block.new data size).restartPoint 0)) ∧
      ∀ m ≤ n, ∀ it, (scan (Block.new data size) m).2 = some it →
        it.keyDelta.2 + it.value.2 < 2 ^ 32 ∧ (Block.new data size).CoversNext it.restartIndex) := by
  refine ⟨lengths_le_iff, ?_⟩
  have hle := size_new_le data size
  generalize Block.new data size = b at hle
  by_cases hiter : b.Iterable
  · rw [forall_prop_of_true hiter]
    exact scan_covers_iff (by omega) hiter n
  · have hscan : ∀ m, scan b m = ([], none) := by
      intro m
      induction m with
      | zero => rw [scan, seekToFirst, if_neg hiter]
      | succ m ih => rw [scan, ih]
    simp [hscan, hiter]

/-- One entry of seven bytes, with lengths that add up to `2 ^ 32`, and a restart point at it. -/
def wrappingEntry (i : ℕ) : Fin 256 :=
  [0, 255, 255, 255, 255, 15, 1, 0, 0, 0, 0, 1, 0, 0, 0].getD i 0

/-- Fourteen bytes, 15 buckets, and a footer with a hash index and one restart point: the buckets
would begin in front of the block. -/
def hashFooter (i : ℕ) : Fin 256 :=
  [0, 0, 0, 0, 0, 0, 0, 0, 0, 0, 0, 0, 0, 0, 15, 0, 1, 0, 0, 128].getD i 0

/-- Both blocks are taken for good ones, and `SeekToFirst` leaves them. -/
theorem not_inBlock_wrappingEntry :
    checkAndDecodeEntry [0, 255, 255, 255, 255, 15, 1] = some ⟨0, 2 ^ 32 - 1, 1, []⟩ ∧
    (Block.new wrappingEntry 15).size = 15 ∧
    (¬ ∀ r ∈ (scan (Block.new wrappingEntry 15) 0).1, r.1 + r.2 ≤ 15) ∧
    (Block.new hashFooter 20).size = 20 ∧ (Block.new hashFooter 20).restarts = 65531 ∧
    ¬ ∀ r ∈ (scan (Block.new hashFooter 20) 0).1, r.1 + r.2 ≤ 20 := by
  decide +kernel

/-- Two entries, the second with a byte of the key of the first. -/
def twoEntries (i : ℕ) : Fin 256 :=
  [0, 2, 1, 65, 66, 9, 1, 1, 1, 67, 8, 0, 0, 0, 0, 1, 0, 0, 0].getD i 0

theorem scan_inBlock_iff_two :
    ((scan (Block.new twoEntries 19) 1).2.map MetaBlockIter.rawKey = some [65, 67]) ∧
    ∀ r ∈ (scan (Block.new twoEntries 19) 1).1, r.1 + r.2 ≤ 19 :=
  ⟨by decide +kernel, (scan_inBlock_iff [0, 1, 1, 65, 66] ⟨0, 1, 1, [65, 66]⟩ twoEntries 19 1
    (by decide)).2.2 ⟨by decide +kernel, by decide +kernel⟩⟩

end BucketLSM.MetaBlock
