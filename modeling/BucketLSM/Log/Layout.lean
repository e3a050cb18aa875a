import BucketLSM.Log.Writer

/-!
# What a writer leaves in the file

The file a writer produces is a sequence of items: physical records, and padding up to the
end of a block. `Layout` says that they fill the blocks as the format asks. Above the items
stand the entries, the data records and metadata records that were added; each has its own
items. The readers are compared with the entries, never with the writer's loop.
-/

namespace BucketLSM.Log

open Lib List

/-! ## Items -/

/-- A piece of a log file. -/
inductive Item
  | fragment (f : Fragment)
  | padding (n : ℕ)

/-- The bytes of an item. -/
def Item.bytes (crc : Crc32c) (logNumber : UInt64) : Item → Slice
  | .fragment f => f.encode crc logNumber
  | .padding n => List.replicate n 0

/-- The bytes of a sequence of items. -/
def itemBytes (crc : Crc32c) (logNumber : UInt64) (items : List Item) : Slice :=
  items.flatMap (Item.bytes crc logNumber)

section ItemBytes

variable {crc : Crc32c} {logNumber : UInt64}

/-- No items, no bytes. -/
@[simp]
lemma itemBytes_nil : itemBytes crc logNumber [] = [] := rfl

/-- The bytes of the first item come first. -/
@[simp]
lemma itemBytes_cons (item : Item) (items : List Item) : itemBytes crc logNumber (item :: items) =
      item.bytes crc logNumber ++ itemBytes crc logNumber items := rfl

/-- Items one after the other. -/
@[simp]
lemma itemBytes_append (items items' : List Item) : itemBytes crc logNumber (items ++ items') =
      itemBytes crc logNumber items ++ itemBytes crc logNumber items' :=
  flatMap_append

/-- A fragment has the bytes of its header and its payload. -/
@[simp]
lemma Fragment.length_encode (f : Fragment) : (f.encode crc logNumber).length = f.size := by
  unfold Fragment.encode Fragment.size Fragment.logField RecordType.headerSize
  cases f.type.isLegacy <;> simp [headerSize, recyclableHeaderSize] <;> omega

/-- A header has seven bytes at least. -/
lemma Fragment.size_pos (f : Fragment) : 7 ≤ f.size :=
  le_trans f.type.le_headerSize (Nat.le_add_right _ _)

end ItemBytes

/-- The items fill the blocks from offset `off` of a block to offset `off'`. -/
inductive Layout : ℕ → List Item → ℕ → Prop
  | nil (off : ℕ) : Layout off [] off
  | fragment {off off' : ℕ} {f : Fragment} {items : List Item}
      (length_le : f.payload.length ≤ 0xffff) (fits : off + f.size ≤ blockSize)
      (rest : Layout (off + f.size) items off') : Layout off (.fragment f :: items) off'
  | padding {off off' : ℕ} {items : List Item} (le : off ≤ blockSize)
      (rest : Layout 0 items off') : Layout off (.padding (blockSize - off) :: items) off'

namespace Layout

variable {off mid off' : ℕ} {items items' : List Item}

/-- Layouts one after the other. -/
lemma append (h : Layout off items mid) (h' : Layout mid items' off') :
    Layout off (items ++ items') off' := by
  induction h with
  | nil => exact h'
  | fragment length_le fits _ ih => exact .fragment length_le fits (ih h')
  | padding le _ ih => exact .padding le (ih h')

/-- A layout is cut between two items. -/
lemma exists_of_append (h : Layout off (items ++ items') off') :
    ∃ mid, Layout off items mid ∧ Layout mid items' off' := by
  induction items generalizing off with
  | nil => exact ⟨off, .nil off, h⟩
  | cons item items ih =>
    cases h with
    | fragment length_le fits rest =>
      obtain ⟨mid, h₁, h₂⟩ := ih rest
      exact ⟨mid, .fragment length_le fits h₁, h₂⟩
    | padding le rest =>
      obtain ⟨mid, h₁, h₂⟩ := ih rest
      exact ⟨mid, .padding le h₁, h₂⟩

/-- The offset stays within a block. -/
lemma le_blockSize (h : Layout off items off') (le : off ≤ blockSize) : off' ≤ blockSize := by
  induction h with
  | nil => exact le
  | fragment _ fits _ ih => exact ih fits
  | padding _ _ ih => exact ih (Nat.zero_le _)

end Layout

/-! ## Entries -/

/-- A data record, cut into the payloads of its fragments, or a metadata record. -/
inductive Entry
  | record (pieces : List Slice)
  | predecessorWALInfo (info : PredecessorWALInfo)
  | timestampSizes (sizes : TimestampSizes)
  | compressionType (payload : Slice)

namespace Entry

/-- The data record, if the entry is one. -/
def record? : Entry → Option Slice
  | record pieces => some pieces.flatten
  | _ => none

/-- The predecessor recorded by the entry. -/
def infos : Entry → List PredecessorWALInfo
  | predecessorWALInfo info => [info]
  | _ => []

/-- The timestamp sizes recorded by the entry. -/
def sizes : Entry → TimestampSizes
  | timestampSizes sizes => sizes
  | _ => []

/-- The entry begins compression. -/
def setsCompression : Entry → Bool
  | compressionType _ => true
  | _ => false

end Entry

/-- The items of a data record, or with `begins` false of the rest of one. Between its
fragments only a rest too short for a header is padded. -/
inductive RecordItems (recycle : Bool) : Bool → List Slice → List Item → Prop
  | last (begins : Bool) (piece : Slice) :
      RecordItems recycle begins [piece] [.fragment ⟨fragmentType recycle begins true, piece⟩]
  | more {pieces : List Slice} {items : List Item} (begins : Bool) (piece : Slice)
      (rest : RecordItems recycle false pieces items) : RecordItems recycle begins (piece :: pieces)
        (.fragment ⟨fragmentType recycle begins false, piece⟩ :: items)
  | padding {pieces : List Slice} {items : List Item} {n : ℕ} (short : n < headerSize)
      (rest : RecordItems recycle false pieces items) :
      RecordItems recycle false pieces (.padding n :: items)

/-- The items of an entry. -/
inductive EntryItems (recycle : Bool) : Entry → List Item → Prop
  | record {pieces : List Slice} {items : List Item}
      (h : RecordItems recycle true pieces items) : EntryItems recycle (.record pieces) items
  | predecessorWALInfo (info : PredecessorWALInfo) :
      EntryItems recycle (.predecessorWALInfo info)
        [.fragment ⟨if recycle then .recyclePredecessorWALInfo else .predecessorWALInfo,
          info.encodeTo⟩]
  | timestampSizes (sizes : TimestampSizes) :
      EntryItems recycle (.timestampSizes sizes)
        [.fragment ⟨if recycle then .recyclableUserDefinedTimestampSize
          else .userDefinedTimestampSize, sizes.encodeTo⟩]
  | compressionType (payload : Slice) :
      EntryItems recycle (.compressionType payload) [.fragment ⟨.setCompression, payload⟩]
  | padding {entry : Entry} {items : List Item} (n : ℕ) (h : EntryItems recycle entry items) :
      EntryItems recycle entry (.padding n :: items)

/-- An entry together with its items. -/
structure LoggedEntry (recycle : Bool) where
  entry : Entry
  items : List Item
  describes : EntryItems recycle entry items

/-- The items of a whole log. -/
def logItems {recycle : Bool} (log : List (LoggedEntry recycle)) : List Item :=
  log.flatMap LoggedEntry.items

variable {recycle : Bool}

/-- No entries, no items. -/
@[simp]
lemma logItems_nil : logItems ([] : List (LoggedEntry recycle)) = [] := rfl

/-- The items of the first entry come first. -/
@[simp]
lemma logItems_cons (e : LoggedEntry recycle) (log : List (LoggedEntry recycle)) :
    logItems (e :: log) = e.items ++ logItems log := rfl

/-- Entries one after the other. -/
@[simp]
lemma logItems_append (log log' : List (LoggedEntry recycle)) :
    logItems (log ++ log') = logItems log ++ logItems log' :=
  flatMap_append

/-- The data records of a log that starts at byte `start`, each with the byte it ends at. -/
def logEnds (crc : Crc32c) (logNumber : UInt64) {recycle : Bool} :
    ℕ → List (LoggedEntry recycle) → List (Slice × ℕ)
  | _, [] => []
  | start, e :: log =>
    let stop := start + (itemBytes crc logNumber e.items).length
    (e.entry.record?.map fun r => (r, stop)).toList ++ logEnds crc logNumber stop log

/-- The data records, without the bytes they end at. -/
lemma map_fst_logEnds {crc : Crc32c} {logNumber : UInt64} (start : ℕ)
    (log : List (LoggedEntry recycle)) :
    (logEnds crc logNumber start log).map Prod.fst = log.filterMap (·.entry.record?) := by
  induction log generalizing start with
  | nil => rfl
  | cons e log ih =>
    cases h : e.entry.record? <;> simp [logEnds, h, ih]

/-- Ends in the second part are counted from its start. -/
lemma logEnds_append {crc : Crc32c} {logNumber : UInt64} (start : ℕ)
    (log log' : List (LoggedEntry recycle)) :
    logEnds crc logNumber start (log ++ log') = logEnds crc logNumber start log ++
      logEnds crc logNumber (start + (itemBytes crc logNumber (logItems log)).length) log' := by
  induction log generalizing start with
  | nil => simp [logEnds]
  | cons e log ih => simp [logEnds, ih, Nat.add_assoc]

/-! ## The writer without compression -/

namespace Writer

variable {crc : Crc32c} {C : Streaming} {w w' : Writer}

/-- Short headers in the legacy format, long ones in the recyclable format. -/
lemma headerSize_cases (w : Writer) : w.headerSize = 7 ∧ w.recycleLogFiles = false ∨
      w.headerSize = 11 ∧ w.recycleLogFiles = true := by
  unfold headerSize
  cases w.recycleLogFiles
  · exact .inl ⟨rfl, rfl⟩
  · exact .inr ⟨rfl, rfl⟩

/-- The type of a fragment tells the format. -/
lemma headerSize_fragmentType (recycle begins ends : Bool) :
    (fragmentType recycle begins ends).headerSize = if recycle then 11 else 7 := by
  cases recycle <;> cases begins <;> cases ends <;> rfl

/-- A writer in the middle of its work: within a block, and not compressing. -/
structure Ready (w : Writer) : Prop where
  le : w.blockOffset ≤ blockSize
  plain : w.compress = false
  noType : w.compressionType = none

/-- `w'` continues `w`: the same writer, with more in the file. -/
structure Extends (w w' : Writer) (crc : Crc32c) (items : List Item) : Prop where
  dest : w'.dest = w.dest ++ itemBytes crc w.logNumber items
  layout : Layout w.blockOffset items w'.blockOffset
  logNumber : w'.logNumber = w.logNumber
  recycle : w'.recycleLogFiles = w.recycleLogFiles
  track : w'.trackAndVerifyWals = w.trackAndVerifyWals
  compress : w'.compress = w.compress
  noType : w'.compressionType = w.compressionType
  recorded : w'.recordedCfToTsSz = w.recordedCfToTsSz

namespace Extends

variable {w₁ w₂ w₃ : Writer} {items items' : List Item}

/-- Nothing is written. -/
lemma refl (w : Writer) (crc : Crc32c) : Extends w w crc [] :=
  ⟨by simp, .nil _, rfl, rfl, rfl, rfl, rfl, rfl⟩

/-- Two writes. -/
lemma trans (h : Extends w₁ w₂ crc items) (h' : Extends w₂ w₃ crc items') :
    Extends w₁ w₃ crc (items ++ items') := by
  refine ⟨?_, h.layout.append h'.layout, h'.logNumber.trans h.logNumber,
    h'.recycle.trans h.recycle, h'.track.trans h.track, h'.compress.trans h.compress,
    h'.noType.trans h.noType, h'.recorded.trans h.recorded⟩
  rw [h'.dest, h.dest, h.logNumber, itemBytes_append, append_assoc]

/-- A writer that has written is ready to go on. -/
lemma ready (h : Extends w₁ w₂ crc items) (hw : w₁.Ready) : w₂.Ready :=
  ⟨h.layout.le_blockSize hw.le, h.compress.trans hw.plain, h.noType.trans hw.noType⟩

end Extends

/-- `EmitPhysicalRecord` writes one fragment. -/
lemma extends_emit {f : Fragment} (h : w.emitPhysicalRecord crc f = some w') :
    Extends w w' crc [.fragment f] := by
  unfold emitPhysicalRecord at h
  split at h
  · rename_i hfits
    cases h
    exact ⟨by simp [Item.bytes], .fragment hfits.1 hfits.2 (.nil _), rfl, rfl, rfl, rfl, rfl, rfl⟩
  · exact absurd h (by simp)

/-- The rest of a block is filled with zeros. -/
lemma extends_padBlock (crc : Crc32c) (hw : w.Ready) :
    Extends w w.padBlock crc [.padding (blockSize - w.blockOffset)] :=
  ⟨by simp [padBlock, Item.bytes], .padding hw.le (.nil _), rfl, rfl, rfl, rfl, rfl, rfl⟩

/-- After the switch a header fits into the block. -/
lemma extends_switchBlock (crc : Crc32c) (hw : w.Ready) :
    ∃ pad, Extends w w.switchBlock crc pad ∧ (pad = [] ∨ ∃ n, pad = [.padding n]) ∧
      w.switchBlock.blockOffset + w.headerSize ≤ blockSize := by
  have hhead : w.headerSize ≤ blockSize := by
    rcases w.headerSize_cases with h | h <;> simp [h.1, blockSize]
  unfold switchBlock
  split
  · exact ⟨_, extends_padBlock crc hw, .inr ⟨_, rfl⟩, by simpa [padBlock] using hhead⟩
  · rename_i hroom
    have hle := hw.le
    exact ⟨[], .refl w crc, .inl rfl, by omega⟩

/-- One round of `AddRecord`: a fragment that takes all that is left or fills the block. -/
lemma addFragment_spec (crc : Crc32c) (room : w.blockOffset + w.headerSize ≤ blockSize)
    (begins : Bool) (left : Slice) :
    ∃ w' piece left', w.addFragment crc begins left [] = some (w', left') ∧ piece ++ left' = left ∧
      Extends w w' crc [.fragment ⟨fragmentType w.recycleLogFiles begins left'.isEmpty, piece⟩] ∧
      (left' ≠ [] → w'.blockOffset = blockSize) ∧ (left'.length < left.length ∨ left' = [] ∨
        w.blockOffset + w.headerSize = blockSize) := by
  have hlen : ∀ ends, (fragmentType w.recycleLogFiles begins ends).headerSize = w.headerSize := by
    intro ends
    rw [headerSize_fragmentType]
    rcases w.headerSize_cases with h | h <;> simp [h.1, h.2]
  set avail := blockSize - w.blockOffset - w.headerSize with havail
  have hends : (decide ((left.take avail).length = left.length ∧ ([] : List Slice) = [])) =
      (left.drop avail).isEmpty := by
    rw [Bool.eq_iff_iff]
    simp only [List.length_take, decide_eq_true_eq, and_true, List.isEmpty_iff,
      List.drop_eq_nil_iff]
    omega
  have hsize : (left.take avail).length ≤ avail := by
    rw [List.length_take]
    omega
  have hbound : blockSize = 32768 := rfl
  let f : Fragment :=
    ⟨fragmentType w.recycleLogFiles begins (left.drop avail).isEmpty, left.take avail⟩
  have hfsize : f.size = w.headerSize + (left.take avail).length := by
    simp only [f, Fragment.size, hlen]
  obtain ⟨w', hemit⟩ : ∃ w', w.emitPhysicalRecord crc f = some w' := by
    refine ⟨_, if_pos ⟨?_, ?_⟩⟩
    · show (left.take avail).length ≤ 0xffff
      omega
    · omega
  have hoff : w'.blockOffset = w.blockOffset + f.size := by
    unfold emitPhysicalRecord at hemit
    split at hemit
    · cases hemit
      rfl
    · exact absurd hemit (by simp)
  refine ⟨w', left.take avail, left.drop avail, ?_, List.take_append_drop _ _,
    extends_emit hemit, ?_, ?_⟩
  · unfold addFragment
    dsimp only
    rw [← havail, hends, hemit]
  · intro hne
    have hlong : avail < left.length := by
      by_contra hshort
      exact hne (List.drop_eq_nil_iff.2 (by omega))
    rw [hoff, hfsize, List.length_take]
    omega
  · rcases Nat.eq_zero_or_pos avail with h | h
    · exact .inr (.inr (by omega))
    · rw [List.drop_eq_nil_iff, List.length_drop]
      omega

/-- The rounds after the first start at the end of a block, where the padding is empty. -/
lemma addFragments_spec (crc : Crc32c) (fuel : ℕ) (left : Slice) (hne : left ≠ [])
    (hfuel : left.length < fuel) (w : Writer) (hw : w.Ready) (hfull : w.blockOffset = blockSize) :
    ∃ w' pieces items, addFragments crc fuel w left [] = some w' ∧ pieces.flatten = left ∧
      RecordItems w.recycleLogFiles false pieces items ∧ Extends w w' crc items := by
  induction fuel generalizing left w with
  | zero => exact absurd hfuel (by omega)
  | succ fuel ih =>
    have hhead : 0 < w.headerSize ∧ w.headerSize < blockSize := by
      rcases w.headerSize_cases with h | h <;> simp [h.1, blockSize]
    have hswitch : w.switchBlock = w.padBlock := by
      unfold switchBlock
      rw [hfull, if_pos (by omega)]
    have hpad := extends_padBlock crc hw
    obtain ⟨w₁, piece, left', hadd, hsplit, hext, hfull', hless⟩ :=
      addFragment_spec crc (w := w.padBlock)
        (by show 0 + w.headerSize ≤ blockSize; omega) false left
    have hpadding : blockSize - w.blockOffset < Log.headerSize := by
      rw [hfull]
      simp [Log.headerSize]
    cases left with
    | nil => exact absurd rfl hne
    | cons b bs =>
      unfold addFragments
      rw [hswitch, hadd]
      by_cases hdone : left' = []
      · subst hdone
        refine ⟨w₁, [piece], _, ?_, by simpa using hsplit,
          .padding hpadding (.last false piece), ?_⟩
        · cases fuel with
          | zero => exact absurd hfuel (by simp)
          | succ fuel => rfl
        · exact hpad.trans hext
      · have hlt : left'.length < (b :: bs).length := by
          rcases hless with h | h | h
          · exact h
          · exact absurd h hdone
          · have h0 : w.padBlock.blockOffset = 0 := rfl
            have hh : w.padBlock.headerSize = w.headerSize := rfl
            omega
        obtain ⟨w₂, pieces, items, hrest, hflat, hitems, hext'⟩ :=
          ih left' hdone (by omega) w₁ (hext.ready (hpad.ready hw)) (hfull' hdone)
        have hempty : left'.isEmpty = false := by simpa using hdone
        rw [hempty] at hext
        rw [hext.recycle] at hitems
        refine ⟨w₂, piece :: pieces, _, hrest, ?_, .padding hpadding (.more false piece hitems), ?_⟩
        · rw [List.flatten_cons, hflat, hsplit]
        · exact hpad.trans (hext.trans hext')

variable {recycle : Bool} {cs : List WriterCall}

/-- Padding may stand in front of an entry. -/
lemma entryItems_pad {entry : Entry} {pad items : List Item}
    (hpad : pad = [] ∨ ∃ n, pad = [.padding n]) (h : EntryItems recycle entry items) :
    EntryItems recycle entry (pad ++ items) := by
  rcases hpad with rfl | ⟨n, rfl⟩
  · exact h
  · exact .padding n h

/-- Adding a record always succeeds and leaves the record, cut into pieces. -/
lemma addRecord_spec (crc : Crc32c) (C : Streaming) (hw : w.Ready) (slice : Slice) (seqno : ℕ) :
    ∃ w' pieces items, w.addRecord crc C slice seqno = some w' ∧ pieces.flatten = slice ∧
      EntryItems w.recycleLogFiles (.record pieces) items ∧ Extends w w' crc items := by
  obtain ⟨pad, hext, hpad, hroom⟩ := extends_switchBlock crc hw
  have hhead : w.switchBlock.headerSize = w.headerSize := by
    unfold headerSize
    rw [hext.recycle]
  obtain ⟨w₁, piece, left', hadd, hsplit, hext₁, hfull, -⟩ :=
    addFragment_spec crc (w := w.switchBlock) (by rwa [hhead]) true slice
  rw [hext.recycle] at hext₁
  unfold addRecord
  simp only [hw.plain, Bool.false_eq_true, if_false]
  rw [hadd]
  -- the record is written in the first round, or the others take the rest of it
  by_cases hdone : left' = []
  · subst hdone
    refine ⟨_, [piece], pad ++ [_], rfl, by simpa using hsplit,
      entryItems_pad hpad (.record (.last true piece)), ?_⟩
    have h := hext.trans hext₁
    exact ⟨h.dest, h.layout, h.logNumber, h.recycle, h.track, h.compress, h.noType, h.recorded⟩
  · have hempty : left'.isEmpty = false := by simpa using hdone
    rw [hempty] at hext₁
    have hfuel : left'.length < addRecordFuel left' [] := by
      simp [addRecordFuel]
      omega
    obtain ⟨w₂, pieces, items, hrest, hflat, hitems, hext₂⟩ :=
      addFragments_spec crc _ left' hdone hfuel w₁ (hext₁.ready (hext.ready hw)) (hfull hdone)
    rw [hext₁.recycle, hext.recycle] at hitems
    simp only [hrest]
    refine ⟨_, piece :: pieces, pad ++ _, rfl, ?_,
      entryItems_pad hpad (.record (.more true piece hitems)), ?_⟩
    · rw [flatten_cons, hflat, hsplit]
    · have h := hext.trans (hext₁.trans hext₂)
      exact ⟨h.dest, h.layout, h.logNumber, h.recycle, h.track, h.compress, h.noType, h.recorded⟩

/-- A metadata record is one fragment, behind padding if it did not fit. -/
lemma extends_metadata {type : RecordType} {payload : Slice} (hw : w.Ready)
    (h : (w.maybeSwitchToNewBlock payload).emitPhysicalRecord crc ⟨type, payload⟩ = some w') :
    ∃ pad, (pad = [] ∨ ∃ n, pad = [.padding n]) ∧
      Extends w w' crc (pad ++ [.fragment ⟨type, payload⟩]) := by
  unfold maybeSwitchToNewBlock at h
  split at h
  · exact ⟨_, .inr ⟨_, rfl⟩, (extends_padBlock crc hw).trans (extends_emit h)⟩
  · exact ⟨[], .inl rfl, extends_emit h⟩

/-! ## Sequences of calls -/

/-- `w'` is `w` after the entries of `log` were added. -/
structure Logs {recycle : Bool} (w w' : Writer) (crc : Crc32c) (log : List (LoggedEntry recycle)) :
    Prop where
  dest : w'.dest = w.dest ++ itemBytes crc w.logNumber (logItems log)
  layout : Layout w.blockOffset (logItems log) w'.blockOffset
  logNumber : w'.logNumber = w.logNumber
  recycle : w'.recycleLogFiles = recycle
  track : w'.trackAndVerifyWals = w.trackAndVerifyWals
  ready : w'.Ready
  recorded : w'.recordedCfToTsSz = w.recordedCfToTsSz ++ log.flatMap (·.entry.sizes)
  plain : ∀ e ∈ log, e.entry.setsCompression = false

/-- The data records among the calls. -/
def recordsOf (calls : List WriterCall) : List Slice :=
  calls.filterMap fun
    | .addRecord slice _ => some slice
    | _ => none

/-- The predecessors among the calls. -/
def infosOf (calls : List WriterCall) : List PredecessorWALInfo :=
  calls.filterMap fun
    | .maybeAddPredecessorWALInfo info => info
    | _ => none

/-- The timestamp sizes among the calls. -/
def sizesOf (calls : List WriterCall) : TimestampSizes :=
  calls.flatMap fun
    | .maybeAddUserDefinedTimestampSizeRecord sizes => sizes
    | _ => []

/-- The data records of a sequence of calls, each with the length of the file when it has
been written. -/
def written (crc : Crc32c) (C : Streaming) (w : Writer) : List WriterCall → List (Slice × ℕ)
  | [] => []
  | c :: cs =>
    match w.call crc C c with
    | none => []
    | some w' =>
      match c with
      | .addRecord slice _ => (slice, w'.dest.length) :: written crc C w' cs
      | _ => written crc C w' cs

/-- Items of an entry are logged as that entry. -/
lemma logs_of_extends {entry : Entry} {items : List Item} (hw : w.Ready)
    (hr : w.recycleLogFiles = recycle) (he : EntryItems recycle entry items)
    (hx : Extends w w' crc items) (hs : entry.sizes = []) (hp : entry.setsCompression = false) :
    Logs w w' crc [(⟨entry, items, he⟩ : LoggedEntry recycle)] :=
  ⟨by simpa using hx.dest, by simpa using hx.layout, hx.logNumber, hx.recycle.trans hr, hx.track,
    hx.ready hw, by simpa [hs] using hx.recorded, by simpa using hp⟩

/-- Nothing is logged. -/
lemma logs_refl (crc : Crc32c) (hw : w.Ready) (hr : w.recycleLogFiles = recycle) :
    Logs w w crc ([] : List (LoggedEntry recycle)) :=
  ⟨by simp, .nil _, rfl, hr, rfl, hw, by simp, by simp⟩

/-- Two calls. -/
lemma Logs.append {w₁ w₂ w₃ : Writer} {log log' : List (LoggedEntry recycle)}
    (h : Logs w₁ w₂ crc log) (h' : Logs w₂ w₃ crc log') : Logs w₁ w₃ crc (log ++ log') := by
  refine ⟨?_, ?_, h'.logNumber.trans h.logNumber, h'.recycle, h'.track.trans h.track, h'.ready,
    ?_, ?_⟩
  · rw [h'.dest, h.dest, h.logNumber, logItems_append, itemBytes_append, append_assoc]
  · rw [logItems_append]
    exact h.layout.append h'.layout
  · rw [h'.recorded, h.recorded, flatMap_append, append_assoc]
  · intro e he
    rcases mem_append.1 he with he | he
    · exact h.plain e he
    · exact h'.plain e he

/-- The sizes that a call records are those of column families not recorded before. -/
lemma timestampSizesToRecord_spec {recorded sizes toRecord recorded' : TimestampSizes}
    (h : timestampSizesToRecord recorded sizes = some (toRecord, recorded'))
    (hnodup : (recorded.map Prod.fst).Nodup) :
    recorded' = recorded ++ toRecord ∧ (recorded'.map Prod.fst).Nodup := by
  induction sizes generalizing recorded toRecord recorded' with
  | nil =>
    cases h
    exact ⟨(append_nil _).symm, hnodup⟩
  | cons entry sizes ih =>
    obtain ⟨cf, size⟩ := entry
    unfold timestampSizesToRecord at h
    cases hl : recorded.lookup cf with
    | some known =>
      rw [hl] at h
      dsimp only at h
      split at h
      · exact ih h hnodup
      · exact absurd h (by simp)
    | none =>
      rw [hl] at h
      dsimp only at h
      split at h
      · have hfresh : cf ∉ recorded.map Prod.fst := by
          intro hmem
          obtain ⟨entry, hentry, rfl⟩ := mem_map.1 hmem
          exact absurd hl (by
            rw [lookup_eq_none_iff]
            push Not
            exact ⟨entry, hentry, by simp⟩)
        cases hrest : timestampSizesToRecord (recorded ++ [(cf, size)]) sizes with
        | none => simp [hrest] at h
        | some result =>
          rw [hrest] at h
          cases h
          obtain ⟨heq, hnd⟩ := ih hrest (by
            rw [map_append, nodup_append]
            refine ⟨hnodup, by simp, ?_⟩
            intro a ha b hb hab
            simp only [map_cons, map_nil, mem_singleton] at hb
            exact hfresh (hb ▸ hab ▸ ha))
          exact ⟨by rw [heq]; simp, hnd⟩
      · exact ih h hnodup

/-- The data record a call adds, with the length of the file afterwards. -/
def writtenBy (w' : Writer) : WriterCall → List (Slice × ℕ)
  | .addRecord slice _ => [(slice, w'.dest.length)]
  | _ => []

/-- The predecessor a call of a tracking writer adds. -/
def infosBy : WriterCall → List PredecessorWALInfo
  | .maybeAddPredecessorWALInfo (some info) => [info]
  | _ => []

/-- Every call leaves at most one entry. -/
lemma call_spec {c : WriterCall} (hw : w.Ready) (hr : w.recycleLogFiles = recycle)
    (hnodup : (w.recordedCfToTsSz.map Prod.fst).Nodup) (h : w.call crc C c = some w') :
    ∃ log : List (LoggedEntry recycle), Logs w w' crc log ∧
      (w'.recordedCfToTsSz.map Prod.fst).Nodup ∧
      logEnds crc w.logNumber w.dest.length log = writtenBy w' c ∧
      log.flatMap (·.entry.infos) = if w.trackAndVerifyWals then infosBy c else [] := by
  subst hr
  have hnothing : w = w' → writtenBy w' c = [] → infosBy c = [] →
      ∃ log : List (LoggedEntry w.recycleLogFiles), Logs w w' crc log ∧
        (w'.recordedCfToTsSz.map Prod.fst).Nodup ∧
        logEnds crc w.logNumber w.dest.length log = writtenBy w' c ∧
        log.flatMap (·.entry.infos) = if w.trackAndVerifyWals then infosBy c else [] := by
    rintro rfl hwritten hinfos
    exact ⟨[], logs_refl crc hw rfl, hnodup, by simp [logEnds, hwritten], by simp [hinfos]⟩
  cases c with
  | addRecord slice seqno =>
    obtain ⟨w₁, pieces, items, hadd, hflat, hitems, hext⟩ := addRecord_spec crc C hw slice seqno
    have heq : some w₁ = some w' := hadd.symm.trans h
    cases heq
    refine ⟨_, logs_of_extends hw rfl hitems hext rfl rfl, by rwa [hext.recorded], ?_,
      by simp [Entry.infos, infosBy]⟩
    simp [logEnds, Entry.record?, hflat, writtenBy, hext.dest]
  | addCompressionTypeRecord =>
    simp only [call, addCompressionTypeRecord, hw.noType] at h
    split at h
    · exact hnothing (Option.some.inj h) rfl rfl
    · exact absurd h (by simp)
  | maybeAddPredecessorWALInfo info =>
    cases info with
    | none => exact hnothing (Option.some.inj h) rfl rfl
    | some info =>
      simp only [call, maybeAddPredecessorWALInfo] at h
      split at h
      · rename_i htrack
        obtain ⟨pad, hpad, hext⟩ := extends_metadata hw h
        have hitems : EntryItems w.recycleLogFiles (.predecessorWALInfo info) _ :=
          entryItems_pad hpad (.predecessorWALInfo info)
        refine ⟨_, logs_of_extends hw rfl hitems hext rfl rfl, by rwa [hext.recorded],
          by simp [logEnds, Entry.record?, writtenBy], by simp [Entry.infos, infosBy, htrack]⟩
      · rename_i htrack
        exact ⟨[], (Option.some.inj h) ▸ logs_refl crc hw rfl, (Option.some.inj h) ▸ hnodup,
          rfl, by simp [htrack]⟩
  | maybeAddUserDefinedTimestampSizeRecord cfToTsSz =>
    simp only [call, maybeAddUserDefinedTimestampSizeRecord] at h
    cases hs : timestampSizesToRecord w.recordedCfToTsSz cfToTsSz with
    | none => simp [hs] at h
    | some result =>
      obtain ⟨toRecord, recorded⟩ := result
      obtain ⟨hrec, hnodup'⟩ := timestampSizesToRecord_spec hs hnodup
      rw [hs] at h
      dsimp only at h
      split at h
      · rename_i hempty
        have heq : w = w' := by
          cases h
          simp [hrec, hempty]
        exact hnothing heq rfl rfl
      · have hw' : ({ w with recordedCfToTsSz := recorded } : Writer).Ready :=
          ⟨hw.le, hw.plain, hw.noType⟩
        obtain ⟨pad, hpad, hext⟩ := extends_metadata hw' h
        have hitems : EntryItems w.recycleLogFiles (.timestampSizes toRecord) _ :=
          entryItems_pad hpad (.timestampSizes toRecord)
        refine ⟨[⟨_, _, hitems⟩], ⟨by simpa using hext.dest, by simpa using hext.layout,
          hext.logNumber, hext.recycle, hext.track, hext.ready hw', ?_,
          by simp [Entry.setsCompression]⟩, ?_, by simp [logEnds, Entry.record?, writtenBy],
          by simp [Entry.infos, infosBy]⟩
        · rw [hext.recorded]
          simpa [Entry.sizes] using hrec
        · rw [hext.recorded]
          exact hnodup'

/-- The records that the first call writes come first. -/
lemma written_cons {c : WriterCall} (h : w.call crc C c = some w') :
    written crc C w (c :: cs) = writtenBy w' c ++ written crc C w' cs := by
  rw [written, h]
  cases c <;> rfl

/-- So do its predecessors. -/
lemma infosOf_cons (c : WriterCall) (cs : List WriterCall) :
    infosOf (c :: cs) = infosBy c ++ infosOf cs := by
  cases c with
  | maybeAddPredecessorWALInfo info => cases info <;> rfl
  | _ => rfl

/-- A sequence of calls leaves a log of the entries it adds. -/
lemma calls_spec (hw : w.Ready) (hr : w.recycleLogFiles = recycle)
    (hnodup : (w.recordedCfToTsSz.map Prod.fst).Nodup) (h : w.calls crc C cs = some w') :
    ∃ log : List (LoggedEntry recycle), Logs w w' crc log ∧
      (w'.recordedCfToTsSz.map Prod.fst).Nodup ∧
      logEnds crc w.logNumber w.dest.length log = written crc C w cs ∧
      log.flatMap (·.entry.infos) = if w.trackAndVerifyWals then infosOf cs else [] := by
  induction cs generalizing w with
  | nil =>
    cases h
    exact ⟨[], logs_refl crc hw hr, hnodup, rfl, by simp [infosOf]⟩
  | cons c cs ih =>
    unfold calls at h
    cases hc : w.call crc C c with
    | none => simp [hc] at h
    | some w₁ =>
      rw [hc] at h
      obtain ⟨log₁, hlog₁, hnodup₁, hends₁, hinfos₁⟩ := call_spec hw hr hnodup hc
      obtain ⟨log₂, hlog₂, hnodup₂, hends₂, hinfos₂⟩ := ih hlog₁.ready hlog₁.recycle hnodup₁ h
      refine ⟨log₁ ++ log₂, hlog₁.append hlog₂, hnodup₂, ?_, ?_⟩
      · rw [logEnds_append, hends₁, written_cons hc, ← hends₂, hlog₁.dest, hlog₁.logNumber,
          length_append]
      · rw [flatMap_append, hinfos₁, hinfos₂, hlog₁.track, infosOf_cons]
        cases w.trackAndVerifyWals <;> simp

/-- The records written are those of the calls. -/
lemma map_fst_written (h : w.calls crc C cs = some w') :
    (written crc C w cs).map Prod.fst = recordsOf cs := by
  induction cs generalizing w with
  | nil => rfl
  | cons c cs ih =>
    unfold calls at h
    cases hc : w.call crc C c with
    | none => simp [hc] at h
    | some w₁ =>
      rw [hc] at h
      rw [written_cons hc, map_append, ih h]
      cases c <;> rfl

/-! ## Calls whose asserts hold -/

/-- What the asserts of the writer ask of a sequence of calls. `empty` tells that nothing has
been written and `recorded` are the timestamp sizes recorded so far. -/
def Admits (recycle track : Bool) : Bool → TimestampSizes → List WriterCall → Prop
  | _, _, [] => True
  | _, recorded, .addRecord _ _ :: cs => Admits recycle track false recorded cs
  -- the type of the compression is set before anything else is written
  | empty, recorded, .addCompressionTypeRecord :: cs =>
    empty = true ∧ Admits recycle track empty recorded cs
  | empty, recorded, .maybeAddPredecessorWALInfo info :: cs =>
    Admits recycle track (empty && !(track && info.isSome)) recorded cs
  -- no size changes, and the new ones fit a block in one piece
  | empty, recorded, .maybeAddUserDefinedTimestampSizeRecord sizes :: cs =>
    match timestampSizesToRecord recorded sizes with
    | none => False
    | some (toRecord, recorded) =>
      (if recycle then recyclableHeaderSize else Log.headerSize) + 6 * toRecord.length ≤ blockSize ∧
        Admits recycle track (empty && toRecord.isEmpty) recorded cs

instance decidableAdmits (recycle track : Bool) (empty : Bool) (recorded : TimestampSizes)
    (cs : List WriterCall) : Decidable (Admits recycle track empty recorded cs) := by
  induction cs generalizing empty recorded with
  | nil => exact .isTrue trivial
  | cons c cs ih =>
    cases c with
    | addRecord slice seqno => exact ih false recorded
    | addCompressionTypeRecord => exact @instDecidableAnd _ _ _ (ih empty recorded)
    | maybeAddPredecessorWALInfo info => exact ih _ recorded
    | maybeAddUserDefinedTimestampSizeRecord sizes =>
      unfold Admits
      split
      · exact .isFalse id
      · exact @instDecidableAnd _ _ _ (ih _ _)

/-- Whatever was emitted, the writer is no longer at the beginning of a block. -/
lemma blockOffset_ne_zero_of_recordItems {begins : Bool} {pieces : List Slice} {items : List Item}
    {off off' : ℕ} (h : RecordItems recycle begins pieces items) (layout : Layout off items off') :
    off' ≠ 0 := by
  induction h generalizing off with
  | last begins piece =>
    cases layout with
    | @fragment _ _ f _ length_le fits rest =>
      cases rest
      have := Fragment.size_pos ⟨fragmentType recycle begins true, piece⟩
      omega
  | more begins piece _ ih =>
    cases layout with
    | fragment _ _ rest => exact ih rest
  | padding _ _ ih =>
    cases layout with
    | padding _ rest => exact ih rest

lemma blockOffset_ne_zero_of_addRecord (hw : w.Ready) {slice : Slice} {seqno : ℕ}
    (h : w.addRecord crc C slice seqno = some w') : w'.blockOffset ≠ 0 := by
  obtain ⟨w₁, pieces, items, hadd, -, hitems, hext⟩ := addRecord_spec crc C hw slice seqno
  cases hadd.symm.trans h
  have hoff : ∀ {items off}, EntryItems w.recycleLogFiles (.record pieces) items →
      Layout off items w'.blockOffset → w'.blockOffset ≠ 0 := by
    intro items
    induction items with
    | nil =>
      intro off hitems
      cases hitems with
      | record hrecord => exact blockOffset_ne_zero_of_recordItems hrecord
    | cons item items ih =>
      intro off hitems hlayout
      cases hitems with
      | record hrecord => exact blockOffset_ne_zero_of_recordItems hrecord hlayout
      | padding n hrest =>
        cases hlayout with
        | padding _ rest => exact ih hrest rest
  exact hoff hitems hext.layout

lemma exists_emit_iff {f : Fragment} : (∃ w', w.emitPhysicalRecord crc f = some w') ↔
      f.payload.length ≤ 0xffff ∧ w.blockOffset + f.size ≤ blockSize := by
  unfold emitPhysicalRecord
  by_cases h : f.payload.length ≤ 0xffff ∧ w.blockOffset + f.size ≤ blockSize
  · rw [if_pos h]
    exact ⟨fun _ => h, fun _ => ⟨_, rfl⟩⟩
  · rw [if_neg h]
    simp [h]

/-- A metadata record is written exactly when it fits a block of its own. -/
lemma exists_metadata_iff (crc : Crc32c) {type : RecordType} (payload : Slice) (hw : w.Ready)
    (htype : type.headerSize = w.headerSize) :
    (∃ w', (w.maybeSwitchToNewBlock payload).emitPhysicalRecord crc ⟨type, payload⟩ = some w') ↔
      w.headerSize + payload.length ≤ blockSize := by
  have hle := hw.le
  have hsmall : blockSize ≤ 0xffff := by decide
  rw [exists_emit_iff]
  unfold maybeSwitchToNewBlock Fragment.size
  dsimp only
  rw [htype]
  split
  · simp only [padBlock]
    omega
  · omega

lemma metadata_blockOffset_ne_zero {type : RecordType} {payload : Slice}
    (h : (w.maybeSwitchToNewBlock payload).emitPhysicalRecord crc ⟨type, payload⟩ = some w') :
    w'.blockOffset ≠ 0 := by
  unfold emitPhysicalRecord at h
  split at h
  · cases h
    have := Fragment.size_pos ⟨type, payload⟩
    dsimp only
    omega
  · exact absurd h (by simp)

/-- Where a writer stands between two calls, as far as the asserts are concerned. -/
structure Standing where
  empty : Bool
  recorded : TimestampSizes

/-- Where a writer stands. -/
def standing (w : Writer) : Standing := ⟨w.blockOffset == 0, w.recordedCfToTsSz⟩

/-- What a call makes of it, if the asserts of the call hold. -/
def Standing.call (recycle track : Bool) (s : Standing) : WriterCall → Option Standing
  | .addRecord _ _ => some ⟨false, s.recorded⟩
  | .addCompressionTypeRecord => if s.empty = true then some s else none
  | .maybeAddPredecessorWALInfo info => some ⟨s.empty && !(track && info.isSome), s.recorded⟩
  | .maybeAddUserDefinedTimestampSizeRecord sizes =>
    match timestampSizesToRecord s.recorded sizes with
    | none => none
    | some (toRecord, recorded) =>
      if (if recycle then recyclableHeaderSize else Log.headerSize) + 6 * toRecord.length ≤ blockSize
      then some ⟨s.empty && toRecord.isEmpty, recorded⟩ else none

/-- The asserts of a sequence, call by call. -/
lemma admits_cons {track : Bool} {s : Standing} {c : WriterCall} :
    Admits recycle track s.empty s.recorded (c :: cs) ↔ ∃ s', s.call recycle track c = some s' ∧
      Admits recycle track s'.empty s'.recorded cs := by
  cases c with
  | addRecord slice seqno => simp [Admits, Standing.call]
  | addCompressionTypeRecord => cases h : s.empty <;> simp [Admits, Standing.call, h]
  | maybeAddPredecessorWALInfo info => simp [Admits, Standing.call]
  | maybeAddUserDefinedTimestampSizeRecord sizes =>
    rw [Admits, Standing.call]
    cases timestampSizesToRecord s.recorded sizes with
    | none => simp
    | some result =>
      dsimp only
      by_cases hfits : (if recycle then recyclableHeaderSize else Log.headerSize) +
          6 * result.1.length ≤ blockSize
      · rw [if_pos hfits, and_iff_right hfits]
        simp
      · rw [if_neg hfits]
        exact iff_of_false (fun h => hfits h.1) (by simp)

/-- What a call of a writer that is ready does to where it stands. -/
structure Moves (w w₁ : Writer) (c : WriterCall) : Prop where
  ready : w₁.Ready
  recycle : w₁.recycleLogFiles = w.recycleLogFiles
  track : w₁.trackAndVerifyWals = w.trackAndVerifyWals
  standing : w.standing.call w.recycleLogFiles w.trackAndVerifyWals c = some w₁.standing

/-- A writer that has written stands behind what it has written, with the sizes it began with. -/
lemma Extends.moves {c : WriterCall} {items : List Item} {w₀ w₁ : Writer} (hw : w₀.Ready)
    (hext : Extends w₀ w₁ crc items) (hoff : w₁.blockOffset ≠ 0)
    (hsame : w₀.recycleLogFiles = w.recycleLogFiles ∧ w₀.trackAndVerifyWals = w.trackAndVerifyWals)
    (hcall : w.standing.call w.recycleLogFiles w.trackAndVerifyWals c =
      some ⟨false, w₀.recordedCfToTsSz⟩) : Moves w w₁ c where
  ready := hext.ready hw
  recycle := hext.recycle.trans hsame.1
  track := hext.track.trans hsame.2
  standing := by rw [hcall, Writer.standing, hext.recorded, beq_false_of_ne hoff]

/-- A predecessor record always fits a block. -/
lemma call_predecessor (hw : w.Ready) (info : Option PredecessorWALInfo) :
    ∃ w₁, w.call crc C (.maybeAddPredecessorWALInfo info) = some w₁ ∧
      Moves w w₁ (.maybeAddPredecessorWALInfo info) := by
  by_cases hadds : w.trackAndVerifyWals = true ∧ info.isSome
  · obtain ⟨htrack, hsome⟩ := hadds
    obtain ⟨info, rfl⟩ := Option.isSome_iff_exists.1 hsome
    have hhead : (if w.recycleLogFiles then RecordType.recyclePredecessorWALInfo
        else .predecessorWALInfo).headerSize = w.headerSize := by
      unfold headerSize
      cases w.recycleLogFiles <;> rfl
    have hfits : w.headerSize + info.encodeTo.length ≤ blockSize := by
      rcases w.headerSize_cases with h | h <;> simp [h.1, PredecessorWALInfo.encodeTo, blockSize]
    obtain ⟨w₁, hemit⟩ := (exists_metadata_iff crc info.encodeTo hw hhead).2 hfits
    obtain ⟨pad, -, hext⟩ := extends_metadata hw hemit
    refine ⟨w₁, by simpa [call, maybeAddPredecessorWALInfo, htrack] using hemit,
      hext.moves hw (metadata_blockOffset_ne_zero hemit) ⟨rfl, rfl⟩ ?_⟩
    simp [Standing.call, standing, htrack]
  · have hsame : (w.trackAndVerifyWals && info.isSome) = false := by
      simpa using hadds
    refine ⟨w, ?_, hw, rfl, rfl, by simp [Standing.call, standing, hsame]⟩
    cases info with
    | none => rfl
    | some info => simp_all [call, maybeAddPredecessorWALInfo]

/-- A record of new timestamp sizes fits a block or is refused. -/
lemma call_timestampSizes (hw : w.Ready) (sizes : TimestampSizes) :
    w.call crc C (.maybeAddUserDefinedTimestampSizeRecord sizes) = none ∧
      w.standing.call w.recycleLogFiles w.trackAndVerifyWals
        (.maybeAddUserDefinedTimestampSizeRecord sizes) = none ∨
    ∃ w₁, w.call crc C (.maybeAddUserDefinedTimestampSizeRecord sizes) = some w₁ ∧
      Moves w w₁ (.maybeAddUserDefinedTimestampSizeRecord sizes) := by
  cases hs : timestampSizesToRecord w.recordedCfToTsSz sizes with
  | none =>
    exact .inl ⟨by simp [call, maybeAddUserDefinedTimestampSizeRecord, hs],
      by simp [Standing.call, standing, hs]⟩
  | some result =>
    obtain ⟨toRecord, recorded⟩ := result
    have hw₀ : ({ w with recordedCfToTsSz := recorded } : Writer).Ready :=
      ⟨hw.le, hw.plain, hw.noType⟩
    by_cases hempty : toRecord = []
    · have hhead : (if w.recycleLogFiles then recyclableHeaderSize else Log.headerSize) ≤
          blockSize := by
        cases w.recycleLogFiles <;> decide
      refine .inr ⟨{ w with recordedCfToTsSz := recorded }, ?_, hw₀, rfl, rfl, ?_⟩
      · simp [call, maybeAddUserDefinedTimestampSizeRecord, hs, hempty]
      · simp [Standing.call, standing, hs, hempty, hhead]
    · set type : RecordType := if w.recycleLogFiles then .recyclableUserDefinedTimestampSize
        else .userDefinedTimestampSize with htype
      have hhead : type.headerSize =
          ({ w with recordedCfToTsSz := recorded } : Writer).headerSize := by
        rw [htype]
        unfold headerSize
        cases w.recycleLogFiles <;> rfl
      have hcall : w.call crc C (.maybeAddUserDefinedTimestampSizeRecord sizes) =
          (maybeSwitchToNewBlock { w with recordedCfToTsSz := recorded }
            toRecord.encodeTo).emitPhysicalRecord crc ⟨type, toRecord.encodeTo⟩ := by
        simp [call, maybeAddUserDefinedTimestampSizeRecord, hs, hempty, htype]
      have hiff := exists_metadata_iff crc toRecord.encodeTo hw₀ hhead
      rw [TimestampSizes.length_encodeTo, ← hcall] at hiff
      unfold headerSize at hiff
      by_cases hfits : (if w.recycleLogFiles then recyclableHeaderSize else Log.headerSize) +
          6 * toRecord.length ≤ blockSize
      · obtain ⟨w₁, hsome⟩ := hiff.2 hfits
        have hemit := hcall.symm.trans hsome
        obtain ⟨pad, -, hext⟩ := extends_metadata hw₀ hemit
        refine .inr ⟨w₁, hsome,
          hext.moves hw₀ (metadata_blockOffset_ne_zero hemit) ⟨rfl, rfl⟩ ?_⟩
        simp [Standing.call, standing, hs, hfits, hempty]
      · exact .inl ⟨Option.eq_none_iff_forall_ne_some.2 fun w₁ h => hfits (hiff.1 ⟨w₁, h⟩),
          by simp [Standing.call, standing, hs, hfits]⟩

/-- A call is refused, or goes through and moves the writer on. -/
lemma call_cases (crc : Crc32c) (C : Streaming) (hw : w.Ready) (c : WriterCall) :
    w.call crc C c = none ∧
      w.standing.call w.recycleLogFiles w.trackAndVerifyWals c = none ∨
    ∃ w₁, w.call crc C c = some w₁ ∧ Moves w w₁ c := by
  cases c with
  | addRecord slice seqno =>
    obtain ⟨w₁, pieces, items, hadd, -, -, hext⟩ := addRecord_spec crc C hw slice seqno
    exact .inr ⟨w₁, hadd, hext.moves hw (blockOffset_ne_zero_of_addRecord hw hadd) ⟨rfl, rfl⟩ rfl⟩
  | addCompressionTypeRecord =>
    by_cases hzero : w.blockOffset = 0
    · refine .inr ⟨w, ?_, hw, rfl, rfl, by simp [Standing.call, standing, hzero]⟩
      simp [call, addCompressionTypeRecord, hzero, hw.noType]
    · exact .inl ⟨by simp [call, addCompressionTypeRecord, hzero],
        by simp [Standing.call, standing, hzero]⟩
  | maybeAddPredecessorWALInfo info => exact .inr (call_predecessor hw info)
  | maybeAddUserDefinedTimestampSizeRecord sizes => exact call_timestampSizes hw sizes

/-- A sequence of calls goes through exactly when its asserts hold. -/
lemma exists_calls_iff (hw : w.Ready) : (∃ w', w.calls crc C cs = some w') ↔
      Admits w.recycleLogFiles w.trackAndVerifyWals (w.blockOffset == 0) w.recordedCfToTsSz cs := by
  induction cs generalizing w with
  | nil => simp [calls, Admits]
  | cons c cs ih =>
    change _ ↔ Admits _ _ w.standing.empty w.standing.recorded (c :: cs)
    rw [admits_cons, calls]
    rcases call_cases crc C hw c with ⟨hcall, hnone⟩ | ⟨w₁, hcall, hmoves⟩
    · simp [hcall, hnone]
    · simp only [hcall, hmoves.standing, Option.some.injEq, exists_eq_left']
      rw [ih hmoves.ready, hmoves.recycle, hmoves.track]
      rfl

/-- The sizes recorded after a call are those before it and the new ones that are not zero. -/
lemma mem_timestampSizesToRecord {recorded sizes toRecord recorded' : TimestampSizes}
    (h : timestampSizesToRecord recorded sizes = some (toRecord, recorded')) (entry : UInt32 × ℕ) :
    entry ∈ recorded' ↔ entry ∈ recorded ∨ entry ∈ sizes ∧ entry.2 ≠ 0 := by
  induction sizes generalizing recorded toRecord recorded' with
  | nil =>
    cases h
    simp
  | cons head sizes ih =>
    obtain ⟨cf, size⟩ := head
    unfold timestampSizesToRecord at h
    cases hl : recorded.lookup cf with
    | some known =>
      rw [hl] at h
      dsimp only at h
      split at h
      · rename_i heq
        subst heq
        rw [ih h, mem_cons]
        have hmem : (cf, known) ∈ recorded := by
          obtain ⟨before, after, rfl, -⟩ := lookup_eq_some_iff.1 hl
          simp
        constructor
        · rintro (hrec | ⟨hin, hne⟩)
          exacts [.inl hrec, .inr ⟨.inr hin, hne⟩]
        · rintro (hrec | ⟨rfl | hin, hne⟩)
          exacts [.inl hrec, .inl hmem, .inr ⟨hin, hne⟩]
      · exact absurd h (by simp)
    | none =>
      rw [hl] at h
      dsimp only at h
      split at h
      · rename_i hsize
        cases hrest : timestampSizesToRecord (recorded ++ [(cf, size)]) sizes with
        | none => simp [hrest] at h
        | some result =>
          rw [hrest] at h
          cases h
          rw [ih hrest, mem_append, mem_singleton, mem_cons]
          constructor
          · rintro ((hrec | rfl) | ⟨hin, hne⟩)
            exacts [.inl hrec, .inr ⟨.inl rfl, hsize⟩, .inr ⟨.inr hin, hne⟩]
          · rintro (hrec | ⟨rfl | hin, hne⟩)
            exacts [.inl (.inl hrec), .inl (.inr rfl), .inr ⟨hin, hne⟩]
      · rename_i hsize
        rw [ih h, mem_cons]
        constructor
        · rintro (hrec | ⟨hin, hne⟩)
          exacts [.inl hrec, .inr ⟨.inr hin, hne⟩]
        · rintro (hrec | ⟨rfl | hin, hne⟩)
          exacts [.inl hrec, absurd hne hsize, .inr ⟨hin, hne⟩]

/-- The sizes recorded after one call. -/
lemma Standing.mem_recorded {track : Bool} {s s' : Standing} {c : WriterCall}
    (h : s.call recycle track c = some s') (entry : UInt32 × ℕ) :
    entry ∈ s'.recorded ↔ entry ∈ s.recorded ∨ entry ∈ sizesOf [c] ∧ entry.2 ≠ 0 := by
  cases c with
  | addRecord slice seqno =>
    cases h
    simp [sizesOf]
  | addCompressionTypeRecord =>
    rw [Standing.call] at h
    split_ifs at h
    cases h
    simp [sizesOf]
  | maybeAddPredecessorWALInfo info =>
    cases h
    simp [sizesOf]
  | maybeAddUserDefinedTimestampSizeRecord sizes =>
    rw [Standing.call] at h
    cases hs : timestampSizesToRecord s.recorded sizes with
    | none => simp [hs] at h
    | some result =>
      rw [hs] at h
      obtain ⟨-, h⟩ := Option.ite_none_right_eq_some.1 h
      cases h
      simpa [sizesOf] using mem_timestampSizesToRecord hs entry

/-- The sizes a sequence of calls has recorded in the end. -/
lemma mem_recorded_calls (hw : w.Ready) (h : w.calls crc C cs = some w') (entry : UInt32 × ℕ) :
    entry ∈ w'.recordedCfToTsSz ↔
      entry ∈ w.recordedCfToTsSz ∨ entry ∈ sizesOf cs ∧ entry.2 ≠ 0 := by
  induction cs generalizing w with
  | nil =>
    cases h
    simp [sizesOf]
  | cons c cs ih =>
    rw [calls] at h
    rcases call_cases crc C hw c with ⟨hcall, -⟩ | ⟨w₁, hcall, hmoves⟩
    · rw [hcall] at h
      exact absurd h (by simp)
    · rw [hcall] at h
      rw [ih hmoves.ready h, show entry ∈ w₁.recordedCfToTsSz ↔ _ from
        Standing.mem_recorded hmoves.standing entry,
        show sizesOf (c :: cs) = sizesOf [c] ++ sizesOf cs by simp [sizesOf], mem_append]
      exact ⟨by tauto, by tauto⟩

end Writer

end BucketLSM.Log
