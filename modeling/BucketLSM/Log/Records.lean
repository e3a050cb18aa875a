import BucketLSM.Log.Physical

/-!
# Reading the entries of a log

What `ReadRecord` does on the entries the writer left: a data record is returned as it was
written, a metadata record is taken in on the way. `readsAll_log` puts this together for a
whole log, whatever stands behind it.
-/

namespace BucketLSM.Log

open Lib List TimestampSizes Entry

/-! ## Types of the fragments written -/

@[simp]
lemma isLegacy_fragmentType (recycle begins ends : Bool) :
    (fragmentType recycle begins ends).isLegacy = !recycle := by
  cases recycle <;> cases begins <;> cases ends <;> rfl

lemma fragmentType_ne_zero (recycle begins ends : Bool) :
    fragmentType recycle begins ends ≠ .zero := by
  cases recycle <;> cases begins <;> cases ends <;> decide

lemma ofByte_fragmentType (recycle begins ends : Bool) :
    Code.ofByte (fragmentType recycle begins ends).code =
      if begins then if ends then .full else .first else if ends then .last else .middle := by
  cases recycle <;> cases begins <;> cases ends <;> rfl

namespace Reader

variable {C : Streaming} {opts : ReaderOptions} {mode : RecoveryMode} {recycle : Bool}
  {off off' : ℕ} {rest : Slice}

/-- Records of the format of the log are let in. -/
def Gate (recycle : Bool) (s : Reader C) : Prop :=
  recycle = true → s.firstRecordRead = true → s.recycled = true

/-- The reader can tell the records of its log by their number. -/
def Numbered (opts : ReaderOptions) (recycle : Bool) : Prop :=
  recycle = true → opts.logNumber.toNat < 2 ^ 32

/-- What the reader has kept of the metadata records, and what it has reported. -/
def metadata (s : Reader C) : TimestampSizes × List Report := (s.recordedCfToTsSz, s.reports)

variable {s : Reader C} {l : Scan C} {e : Entry} {log : List (LoggedEntry recycle)}
  {m : TimestampSizes × List Report}

lemma SameLog.metadata_eq {s' : Reader C} (h : SameLog s s') : s'.metadata = s.metadata := by
  simp [metadata, h.recorded, h.reports]

lemma Aligned.markRecord (h : Aligned s rest off) (offset : ℕ) :
    Aligned (s.markRecord offset) rest off :=
  ⟨h.content, h.noFaults, h.noError, h.noStream, h.place⟩

/-- One round on a fragment: `ReadPhysicalRecord` hands it to the `switch`. -/
lemma round_fragment (mode : RecoveryMode) {f : Fragment} (number : Numbered opts recycle)
    (gate : Gate recycle l.reader) (legacy : f.type.isLegacy = !recycle) (type_ne : f.type ≠ .zero)
    (length_le : f.payload.length ≤ 0xffff) (fits : off + f.size ≤ blockSize)
    (h : At l.reader (f.encode opts.crc opts.logNumber ++ rest) off) :
    ∃ s', readRecordRound opts mode l = readRecordSwitch opts mode
        (l.reader.endOfBufferOffset - l.reader.buffer.length) { l with reader := s' }
        ⟨Code.ofByte f.type.code, f.payload, 0⟩ ∧
      Aligned s' rest (off + f.size) ∧ SameLog l.reader s' ∧
      (recycle = true → s'.recycled = true) := by
  have hrec : f.type.isLegacy = false → recycle = true := by
    intro hleg
    simpa [legacy] using hleg
  obtain ⟨s', hread, haligned, hsame, hrecycled⟩ :=
    h.fragment length_le fits (fun hleg => gate (hrec hleg)) (fun hleg => number (hrec hleg))
      type_ne
  refine ⟨s', by simp only [readRecordRound, hread], haligned, hsame, ?_⟩
  intro hr
  simp [hrecycled, legacy, hr]

/-! ## Data records -/

section Switch

variable {l : Scan C} {offset : ℕ} {piece : Slice}

lemma switch_full (h : l.inFragmentedRecord = false) :
    readRecordSwitch opts mode offset l ⟨.full, piece, 0⟩ =
      .leave (l.returnRecord offset piece) := by
  simp [readRecordSwitch, Scan.reportPartial, h]

lemma switch_first (h : l.inFragmentedRecord = false) :
    readRecordSwitch opts mode offset l ⟨.first, piece, 0⟩ = .next { l with
      prospectiveRecordOffset := offset, scratch := piece, inFragmentedRecord := true } := by
  simp [readRecordSwitch, Scan.reportPartial, h]

lemma switch_middle (h : l.inFragmentedRecord = true) :
    readRecordSwitch opts mode offset l ⟨.middle, piece, 0⟩ =
      .next { l with scratch := l.scratch ++ piece } := by
  simp [readRecordSwitch, h]

lemma switch_last (h : l.inFragmentedRecord = true) :
    readRecordSwitch opts mode offset l ⟨.last, piece, 0⟩ =
      .leave (l.returnRecord l.prospectiveRecordOffset (l.scratch ++ piece)) := by
  simp [readRecordSwitch, h]

end Switch

/-- A data record is returned. Between its fragments the reader has the pieces read so far
in `scratch`. -/
lemma returns_record (mode : RecoveryMode) {begins : Bool} {pieces : List Slice}
    {items : List Item} (number : Numbered opts recycle)
    (hitems : RecordItems recycle begins pieces items)
    (l : Scan C) (layout : Layout off items off') (gate : Gate recycle l.reader)
    (inside : l.inFragmentedRecord = !begins)
    (h : At l.reader (itemBytes opts.crc opts.logNumber items ++ rest) off) :
    ∃ s', Loop.Returns (readRecordRound opts mode) l
        (some ((if begins then [] else l.scratch) ++ pieces.flatten), s') ∧
      Aligned s' rest off' ∧ s'.metadata = l.reader.metadata ∧
      (recycle = true → s'.recycled = true) := by
  induction hitems generalizing l off with
  | last begins piece =>
    cases layout with
    | fragment length_le fits layout =>
      cases layout
      rw [itemBytes_cons, itemBytes_nil, append_nil] at h
      obtain ⟨s', hround, haligned, hsame, hrec⟩ :=
        round_fragment mode number gate (isLegacy_fragmentType _ _ _)
          (fragmentType_ne_zero _ _ _) length_le fits h
      rw [ofByte_fragmentType] at hround
      cases begins with
      | true =>
        have hreturn := Loop.Returns.leave (hround.trans (switch_full inside))
        exact ⟨s'.markRecord _, by simpa [Scan.returnRecord] using hreturn, haligned.markRecord _,
          hsame.metadata_eq, hrec⟩
      | false =>
        have hreturn := Loop.Returns.leave (hround.trans (switch_last inside))
        exact ⟨s'.markRecord _, by simpa [Scan.returnRecord] using hreturn, haligned.markRecord _,
          hsame.metadata_eq, hrec⟩
  | more begins piece hitems ih =>
    cases layout with
    | fragment length_le fits layout =>
      rw [itemBytes_cons, append_assoc] at h
      obtain ⟨s', hround, haligned, hsame, hrec⟩ :=
        round_fragment mode number gate (isLegacy_fragmentType _ _ _)
          (fragmentType_ne_zero _ _ _) length_le fits h
      rw [ofByte_fragmentType] at hround
      cases begins with
      | true =>
        have hnext := hround.trans (switch_first inside)
        obtain ⟨s'', hreturn, haligned', hsame', hrec'⟩ :=
          ih ⟨s', true, _, piece⟩ layout (fun hr _ => hrec hr) rfl haligned.at
        exact ⟨s'', .next hnext (by simpa using hreturn), haligned',
          hsame'.trans hsame.metadata_eq, hrec'⟩
      | false =>
        have hnext := hround.trans (switch_middle inside)
        obtain ⟨s'', hreturn, haligned', hsame', hrec'⟩ :=
          ih ⟨s', l.inFragmentedRecord, _, l.scratch ++ piece⟩ layout (fun hr _ => hrec hr) inside
            haligned.at
        exact ⟨s'', .next hnext (by simpa using hreturn), haligned',
          hsame'.trans hsame.metadata_eq, hrec'⟩
  | padding short hitems ih =>
    cases layout with
    | padding le layout =>
      rw [itemBytes_cons, append_assoc] at h
      rcases h.padding opts (by omega) with h | ⟨hlong, -⟩
      · exact ih l layout gate inside h
      · simp only [headerSize] at short
        omega

/-! ## Entries -/

/-- What an entry adds to the metadata and the reports. -/
def takeIn (opts : ReaderOptions) (mode : RecoveryMode) (m : TimestampSizes × List Report) :
    Entry → TimestampSizes × List Report
  | .predecessorWALInfo info =>
    (m.1, m.2 ++ ((predecessorMismatch opts mode info).map fun reason =>
      Report.corruption 0 reason (some info.logNumber)).toList)
  | .timestampSizes sizes =>
    let update := updateRecordedTimestampSize m.1 sizes.stored
    (update.1, m.2 ++ (update.2.map fun reason => Report.corruption 0 reason none).toList)
  | _ => m

/-- The reader is between two entries. -/
structure Between (recycle : Bool) (l : Scan C) (rest : Slice) (off : ℕ) : Prop where
  at_rest : At l.reader rest off
  outside : l.inFragmentedRecord = false
  gate : Gate recycle l.reader

/-- The reader with other metadata. -/
def setMetadata (s : Reader C) (m : TimestampSizes × List Report) : Reader C :=
  { s with recordedCfToTsSz := m.1, reports := m.2 }

lemma readPredecessorWALInfo_encodeTo (s : Reader C) (info : PredecessorWALInfo) :
    s.readPredecessorWALInfo opts mode info.encodeTo =
      s.setMetadata (takeIn opts mode s.metadata (.predecessorWALInfo info)) := by
  unfold readPredecessorWALInfo maybeVerifyPredecessorWALInfo takeIn
  rw [PredecessorWALInfo.decodeFrom_encodeTo]
  dsimp only
  cases predecessorMismatch opts mode info <;> simp [metadata, setMetadata]

lemma readTimestampSizes_encodeTo (opts : ReaderOptions) (mode : RecoveryMode) (s : Reader C)
    (sizes : TimestampSizes) : s.readTimestampSizes sizes.encodeTo =
      s.setMetadata (takeIn opts mode s.metadata (.timestampSizes sizes)) := by
  unfold readTimestampSizes takeIn
  rw [decodeFrom_encodeTo]
  dsimp only [metadata]
  cases h : updateRecordedTimestampSize s.recordedCfToTsSz sizes.stored with
  | mk recorded reason => cases reason <;> simp [reportCorruption, setMetadata]

lemma ofByte_predecessorWALInfo (recycle : Bool) : Code.ofByte (if recycle then
    RecordType.recyclePredecessorWALInfo else .predecessorWALInfo).code = .predecessorWALInfo := by
  cases recycle <;> rfl

lemma ofByte_userDefinedTimestampSize (recycle : Bool) : Code.ofByte (if recycle then
    RecordType.recyclableUserDefinedTimestampSize else .userDefinedTimestampSize).code =
      .userDefinedTimestampSize := by
  cases recycle <;> rfl

/-- The variables after a metadata record at `offset` was taken in. -/
def withMetadata (l : Scan C) (offset : ℕ) (m : TimestampSizes × List Report) : Scan C :=
  { l.metadataAt offset with reader := (l.metadataAt offset).reader.setMetadata m }

lemma switch_predecessorWALInfo (l : Scan C) (offset : ℕ) (info : PredecessorWALInfo) :
    readRecordSwitch opts mode offset l ⟨.predecessorWALInfo, info.encodeTo, 0⟩ =
      .next (withMetadata l offset
        (takeIn opts mode l.reader.metadata (.predecessorWALInfo info))) := by
  simp only [readRecordSwitch, readPredecessorWALInfo_encodeTo]
  rfl

lemma switch_timestampSizes (outside : l.inFragmentedRecord = false) (offset : ℕ)
    (sizes : TimestampSizes) :
    readRecordSwitch opts mode offset l ⟨.userDefinedTimestampSize, sizes.encodeTo, 0⟩ =
      .next (withMetadata l offset
        (takeIn opts mode l.reader.metadata (.timestampSizes sizes))) := by
  have hkeeps : ∀ reason, l.reportPartial reason = l := by
    simp [Scan.reportPartial, outside]
  simp only [readRecordSwitch, hkeeps, readTimestampSizes_encodeTo opts mode]
  rfl

lemma round_metadata (mode : RecoveryMode) {f : Fragment} (number : Numbered opts recycle)
    (he : EntryItems recycle e [.fragment f]) (hrecord : e.record? = none)
    (plain : e.setsCompression = false) (length_le : f.payload.length ≤ 0xffff)
    (fits : off + f.size ≤ blockSize)
    (h : Between recycle l (f.encode opts.crc opts.logNumber ++ rest) off) :
    ∃ l', readRecordRound opts mode l = .next l' ∧ Between recycle l' rest (off + f.size) ∧
      l'.reader.metadata = takeIn opts mode l.reader.metadata e := by
  have hdone {s' : Reader C} (haligned : Aligned s' rest (off + f.size))
      (hrec : recycle = true → s'.recycled = true) (offset : ℕ) (m : TimestampSizes × List Report) :
      Between recycle (withMetadata { l with reader := s' } offset m) rest (off + f.size) :=
    ⟨.inl ⟨haligned.content, haligned.noFaults, haligned.noError, haligned.noStream,
      haligned.place⟩, h.outside, fun hr _ => hrec hr⟩
  cases he with
  | record h => exact absurd hrecord (by simp [record?])
  | compressionType payload => exact absurd plain (by simp [setsCompression])
  | predecessorWALInfo info =>
    obtain ⟨s', hround, haligned, hsame, hrec⟩ := round_fragment mode number h.gate
      (by cases recycle <;> rfl) (by cases recycle <;> simp) length_le fits h.at_rest
    rw [ofByte_predecessorWALInfo, switch_predecessorWALInfo, hsame.metadata_eq] at hround
    exact ⟨_, hround, hdone haligned hrec _ _, rfl⟩
  | timestampSizes sizes =>
    obtain ⟨s', hround, haligned, hsame, hrec⟩ := round_fragment mode number h.gate
      (by cases recycle <;> rfl) (by cases recycle <;> simp) length_le fits h.at_rest
    rw [ofByte_userDefinedTimestampSize] at hround
    have hnext := hround.trans
      (switch_timestampSizes (l := { l with reader := s' }) h.outside _ sizes)
    rw [hsame.metadata_eq] at hnext
    exact ⟨_, hnext, hdone haligned hrec _ _, rfl⟩

/-- Between two entries padding is passed over. -/
lemma Between.padding (opts : ReaderOptions) (mode : RecoveryMode) {n : ℕ}
    (h : Between recycle l (List.replicate n 0 ++ rest) off) (hoff : off + n = blockSize) :
    ∃ l', Loop.Reaches (readRecordRound opts mode) l l' ∧ Between recycle l' rest 0 ∧
      l'.reader.metadata = l.reader.metadata := by
  rcases h.at_rest.padding opts hoff with hrest | ⟨-, s', hread, hrest, hsame, hrec⟩
  · exact ⟨l, .refl l, ⟨hrest, h.outside, h.gate⟩, rfl⟩
  · have hround : readRecordRound opts mode l = .next { l with reader := s' } := by
      simp [readRecordRound, hread, readRecordSwitch, Scan.dropPartial, h.outside]
    refine ⟨_, .single hround, ⟨hrest, h.outside, fun hr hf => ?_⟩, hsame.metadata_eq⟩
    rw [hrec]
    exact h.gate hr (hsame.first ▸ hf)

lemma Aligned.startScan (h : Aligned s rest off) : Aligned (startScan s).reader rest off :=
  ⟨h.content, h.noFaults, h.noError, by simp [Reader.startScan, h.noStream], h.place⟩

/-- An entry is read: a data record is returned, a metadata record is taken in. -/
lemma read_entry {items : List Item} (number : Numbered opts recycle) (mode : RecoveryMode)
    (he : EntryItems recycle e items) (plain : e.setsCompression = false) (l : Scan C)
    (layout : Layout off items off')
    (h : Between recycle l (itemBytes opts.crc opts.logNumber items ++ rest) off) :
    (∃ r s', e.record? = some r ∧ Loop.Returns (readRecordRound opts mode) l (some r, s') ∧
      Between recycle (startScan s') rest off' ∧
      s'.metadata = takeIn opts mode l.reader.metadata e) ∨
    (e.record? = none ∧ ∃ l', Loop.Reaches (readRecordRound opts mode) l l' ∧
      Between recycle l' rest off' ∧
      l'.reader.metadata = takeIn opts mode l.reader.metadata e) := by
  induction he generalizing l off with
  | record hitems =>
    obtain ⟨s', hreturn, haligned, hmeta, hrec⟩ :=
      returns_record mode number hitems l layout h.gate h.outside h.at_rest
    exact .inl ⟨_, s', rfl, by simpa using hreturn,
      ⟨haligned.startScan.at, rfl, fun hr _ => hrec hr⟩, hmeta⟩
  | predecessorWALInfo info =>
    cases layout with
    | fragment length_le fits layout =>
      cases layout
      rw [itemBytes_cons, itemBytes_nil, append_nil] at h
      obtain ⟨l', hround, hl', hmeta⟩ :=
        round_metadata mode number (.predecessorWALInfo info) rfl plain length_le fits h
      exact .inr ⟨rfl, l', .single hround, hl', hmeta⟩
  | timestampSizes sizes =>
    cases layout with
    | fragment length_le fits layout =>
      cases layout
      rw [itemBytes_cons, itemBytes_nil, append_nil] at h
      obtain ⟨l', hround, hl', hmeta⟩ :=
        round_metadata mode number (.timestampSizes sizes) rfl plain length_le fits h
      exact .inr ⟨rfl, l', .single hround, hl', hmeta⟩
  | compressionType payload => exact absurd plain (by simp [setsCompression])
  | padding n he ih =>
    cases layout with
    | padding le layout =>
      rw [itemBytes_cons, append_assoc] at h
      obtain ⟨l₁, hreach, h₁, hmeta₁⟩ := h.padding opts mode (by omega)
      rw [← hmeta₁]
      rcases ih plain l₁ layout h₁ with ⟨r, s', hr, hreturn, hrest⟩ | ⟨hr, l', hreach', hrest⟩
      · exact .inl ⟨r, s', hr, hreach.returns.2 hreturn, hrest⟩
      · exact .inr ⟨hr, l', hreach.trans hreach', hrest⟩

lemma ReadsAll.of_reaches {l' : Scan C} {rs : List Slice}
    (h : Loop.Reaches (readRecordRound opts mode) l l') (h' : ReadsAll opts mode l' rs s) :
    ReadsAll opts mode l rs s := by
  cases h' with
  | eof last => exact .eof (h.returns.2 last)
  | record first rest => exact .record (h.returns.2 first) rest

/-- The entries of a log are read in order, before whatever follows it. -/
lemma readsAll_log (mode : RecoveryMode) (rs : List Slice) (number : Numbered opts recycle)
    (plain : ∀ e ∈ log, e.entry.setsCompression = false) {P : Reader C → Prop} (l : Scan C)
    (layout : Layout off (logItems log) off')
    (h : Between recycle l (itemBytes opts.crc opts.logNumber (logItems log) ++ rest) off)
    (behind : ∀ l', Between recycle l' rest off' →
      l'.reader.metadata = log.foldl (fun m e => takeIn opts mode m e.entry) l.reader.metadata →
      ∃ s, ReadsAll opts mode l' rs s ∧ P s) :
    ∃ s, ReadsAll opts mode l (log.filterMap (·.entry.record?) ++ rs) s ∧ P s := by
  induction log generalizing l off with
  | nil =>
    cases layout
    exact behind l h rfl
  | cons e log ih =>
    rw [logItems_cons] at layout h
    obtain ⟨mid, layout₁, layout₂⟩ := layout.exists_of_append
    rw [itemBytes_append, append_assoc] at h
    have plain' : ∀ e ∈ log, e.entry.setsCompression = false := fun e he =>
      plain e (mem_cons_of_mem _ he)
    rcases read_entry number mode e.describes (plain e mem_cons_self) l layout₁ h with
      ⟨r, s', hr, hreturn, hstart, hmeta⟩ | ⟨hr, l', hreach, hl', hmeta⟩
    · have hmeta' : (startScan s').reader.metadata = takeIn opts mode l.reader.metadata e.entry :=
        hmeta
      obtain ⟨s, hall, hp⟩ := ih plain' (startScan s') layout₂ hstart (by
        intro l' hl' heq
        exact behind l' hl' (by rw [heq, hmeta', foldl_cons]))
      refine ⟨s, ?_, hp⟩
      simp only [filterMap_cons, hr]
      exact .record hreturn hall
    · obtain ⟨s, hall, hp⟩ := ih plain' l' layout₂ hl' (by
        intro l'' hl'' heq
        exact behind l'' hl'' (by rw [heq, hmeta, foldl_cons]))
      refine ⟨s, ?_, hp⟩
      simp only [filterMap_cons, hr]
      exact hall.of_reaches hreach

/-! ## What the metadata add up to -/

/-- An entry gives no reason for a report: the predecessor agrees with the one observed, and
no timestamp size is zero in the 16 bits it is stored in. -/
def Unreported (opts : ReaderOptions) (mode : RecoveryMode) (e : Entry) : Prop :=
  (∀ info ∈ e.infos, predecessorMismatch opts mode info = none) ∧
    ∀ entry ∈ e.sizes, entry.2 % 2 ^ 16 ≠ 0

/-- The reporter has not been told of a corruption. -/
def Uncorrupted (reports : List Report) : Prop := ∀ r ∈ reports, r.isCorruption = false

lemma updateRecordedTimestampSize_ok {recorded sizes : TimestampSizes}
    (nonzero : ∀ entry ∈ sizes, entry.2 ≠ 0) (nodup : ((recorded ++ sizes).map Prod.fst).Nodup) :
    updateRecordedTimestampSize recorded sizes = (recorded ++ sizes, none) := by
  induction sizes generalizing recorded with
  | nil => simp [updateRecordedTimestampSize]
  | cons entry sizes ih =>
    obtain ⟨cf, size⟩ := entry
    have hsize : size ≠ 0 := nonzero (cf, size) mem_cons_self
    have hfresh : recorded.lookup cf = none := by
      rw [lookup_eq_none_iff]
      intro entry hentry
      rw [map_append, nodup_append] at nodup
      have hne := nodup.2.2 entry.1 (mem_map_of_mem hentry) cf (by simp)
      simpa using Ne.symm hne
    have hrest : updateRecordedTimestampSize (recorded ++ [(cf, size)]) sizes =
        (recorded ++ [(cf, size)] ++ sizes, none) :=
      ih (fun entry hentry => nonzero entry (mem_cons_of_mem _ hentry)) (by simpa using nodup)
    simp [updateRecordedTimestampSize, hsize, hfresh, hrest]

lemma updateRecordedTimestampSize_zero {recorded sizes : TimestampSizes}
    (h : (updateRecordedTimestampSize recorded sizes).2 = none) : ∀ entry ∈ sizes, entry.2 ≠ 0 := by
  induction sizes generalizing recorded with
  | nil => simp
  | cons entry sizes ih =>
    obtain ⟨cf, size⟩ := entry
    unfold updateRecordedTimestampSize at h
    split at h
    · exact absurd h (by simp)
    · rename_i hsize
      split at h
      · exact absurd h (by simp)
      · intro entry hentry
        rcases mem_cons.1 hentry with rfl | hentry
        · exact hsize
        · exact ih h entry hentry

lemma takeIn_unreported (h : Unreported opts mode e)
    (nodup : ((m.1 ++ e.sizes).map Prod.fst).Nodup) :
    takeIn opts mode m e = (m.1 ++ e.sizes.stored, m.2) := by
  cases e with
  | record pieces | compressionType payload => simp [takeIn, Entry.sizes, TimestampSizes.stored]
  | predecessorWALInfo info =>
    have hnone := h.1 info (by simp [Entry.infos])
    simp [takeIn, hnone, Entry.sizes, TimestampSizes.stored]
  | timestampSizes sizes =>
    have hnodup : ((m.1 ++ sizes.stored).map Prod.fst).Nodup := by
      rw [List.map_append, TimestampSizes.map_fst_stored, ← List.map_append]
      exact nodup
    have hupdate : updateRecordedTimestampSize m.1 sizes.stored = (m.1 ++ sizes.stored, none) :=
      updateRecordedTimestampSize_ok (TimestampSizes.forall_mem_stored.2 h.2) hnodup
    simp [takeIn, hupdate, Entry.sizes]

/-- Reports are only ever added, and an entry that gives a reason adds one. -/
lemma exists_takeIn (opts : ReaderOptions) (mode : RecoveryMode)
    (m : TimestampSizes × List Report) (e : Entry) :
    ∃ more, (takeIn opts mode m e).2 = m.2 ++ more ∧
      (Uncorrupted more → Unreported opts mode e) := by
  cases e with
  | record pieces => exact ⟨[], by simp [takeIn], by simp [Unreported, infos, sizes]⟩
  | compressionType payload =>
    exact ⟨[], by simp [takeIn], by simp [Unreported, infos, sizes]⟩
  | predecessorWALInfo info =>
    refine ⟨_, rfl, fun h => ?_⟩
    cases hm : predecessorMismatch opts mode info with
    | none => simp [Unreported, infos, sizes, hm]
    | some reason => simp [hm, Uncorrupted, Report.isCorruption] at h
  | timestampSizes sizes =>
    refine ⟨_, rfl, fun h => ?_⟩
    cases hu : (updateRecordedTimestampSize m.1 sizes.stored).2 with
    | none =>
      have hzero := forall_mem_stored.1 (updateRecordedTimestampSize_zero hu)
      exact ⟨by simp [infos], hzero⟩
    | some reason => simp [hu, Uncorrupted, Report.isCorruption] at h

lemma exists_foldl_takeIn (opts : ReaderOptions) (mode : RecoveryMode)
    (m : TimestampSizes × List Report) (log : List (LoggedEntry recycle)) :
    ∃ more, (log.foldl (fun m e => takeIn opts mode m e.entry) m).2 = m.2 ++ more := by
  induction log generalizing m with
  | nil => exact ⟨[], by simp⟩
  | cons e log ih =>
    obtain ⟨more₁, h₁, -⟩ := exists_takeIn opts mode m e.entry
    obtain ⟨more₂, h₂⟩ := ih (takeIn opts mode m e.entry)
    exact ⟨more₁ ++ more₂, by rw [foldl_cons, h₂, h₁, append_assoc]⟩

/-- Over a log whose column families are recorded once each, no corruption is reported if and
only if no entry gives a reason. -/
lemma uncorrupted_foldl_iff (clean : Uncorrupted m.2)
    (nodup : ((m.1 ++ log.flatMap (·.entry.sizes)).map Prod.fst).Nodup) :
    Uncorrupted (log.foldl (fun m e => takeIn opts mode m e.entry) m).2 ↔
      ∀ e ∈ log, Unreported opts mode e.entry := by
  induction log generalizing m with
  | nil => simpa using clean
  | cons e log ih =>
    rw [foldl_cons, forall_mem_cons]
    by_cases he : Unreported opts mode e.entry
    · have hsplit : ((m.1 ++ e.entry.sizes).map Prod.fst).Nodup := by
        rw [flatMap_cons, ← append_assoc, map_append] at nodup
        exact nodup.of_append_left
      have hnodup : ((m.1 ++ e.entry.sizes.stored ++ log.flatMap (·.entry.sizes)).map
          Prod.fst).Nodup := by
        rw [flatMap_cons, ← append_assoc, map_append, map_append] at nodup
        rwa [map_append, map_append, map_fst_stored]
      rw [takeIn_unreported he hsplit, ih (m := (m.1 ++ e.entry.sizes.stored, m.2)) clean hnodup]
      simp [he]
    · obtain ⟨more₁, h₁, hcause⟩ := exists_takeIn opts mode m e.entry
      obtain ⟨more₂, h₂⟩ := exists_foldl_takeIn opts mode (takeIn opts mode m e.entry) log
      rw [h₂, h₁]
      refine iff_of_false (fun h => he (hcause fun r hr => h r ?_)) (fun h => he h.1)
      simp [hr]

end Reader

end BucketLSM.Log
