import BucketLSM.Log.Records

/-!
# The round trip of a log

What was added to a log is what is read from it. The exception is a log of the recyclable
format whose number does not fit the 32 bits of its header: the reader compares the stored
half with the whole number and takes every record for one of an earlier log.
-/

namespace BucketLSM.Log

open Lib Option List Writer

namespace Reader

variable {C : Streaming} {opts : ReaderOptions} {mode : RecoveryMode} {recycle : Bool}
  {off off' : ℕ} {rest : Slice}

/-- The calls of `ReadRecord` return exactly the records, then the end of the file, and no
corruption is reported. -/
def RoundTrips (C : Streaming) (opts : ReaderOptions) (mode : RecoveryMode) (bytes : Slice)
    (records : List Slice) : Prop :=
  ∃ s : Reader C, ReadsAll opts mode (startScan (openFile C bytes)) records s ∧
    Uncorrupted s.reports

variable {l : Scan C} {log : List (LoggedEntry recycle)} {f : Fragment} {items : List Item}

lemma ReadsAll.unique {rs rs' : List Slice} {s s' : Reader C} (h : ReadsAll opts mode l rs s)
    (h' : ReadsAll opts mode l rs' s') : rs = rs' ∧ s = s' := by
  induction h generalizing rs' with
  | eof last =>
    cases h' with
    | eof last' =>
      cases last.unique last'
      exact ⟨rfl, rfl⟩
    | record first _ => exact absurd (last.unique first) (by simp)
  | record first _ ih =>
    cases h' with
    | eof last => exact absurd (first.unique last) (by simp)
    | record first' rest' =>
      cases first.unique first'
      obtain ⟨rfl, rfl⟩ := ih rest'
      exact ⟨rfl, rfl⟩

lemma ReadsAll.eq_of_readAll {s s' : Reader C} {rs rs' : List Slice} {fuel calls : ℕ}
    (h : ReadsAll opts mode (startScan s) rs s')
    (hrun : readAll opts mode fuel calls s = some rs') : rs = rs' := by
  induction calls generalizing s rs rs' with
  | zero => exact absurd hrun (by simp [readAll])
  | succ calls ih =>
    unfold readAll at hrun
    cases hread : readRecord opts mode fuel s with
    | none => simp [hread] at hrun
    | some result =>
      obtain ⟨r, s₁⟩ := result
      have hreturn := Loop.returns_of_run hread
      rw [hread] at hrun
      cases h with
      | eof last =>
        cases last.unique hreturn
        simpa using hrun
      | record first rest =>
        cases first.unique hreturn
        obtain ⟨rs'', hrest, rfl⟩ := map_eq_some_iff.1 hrun
        rw [ih rest hrest]

lemma between_openFile (C : Streaming) (recycle : Bool) (bytes : Slice) :
    Between recycle (startScan (openFile C bytes)) bytes 0 :=
  ⟨at_openFile C bytes, rfl, fun _ h => absurd h (by simp [startScan, openFile])⟩

lemma Between.eof (opts : ReaderOptions) (mode : RecoveryMode) (h : Between recycle l [] off) :
    ∃ s, ReadsAll opts mode l [] s ∧ s.metadata = l.reader.metadata := by
  obtain ⟨s', hread, hsame, -⟩ := h.at_rest.eof opts
  have hround : readRecordRound opts mode l = .leave (none, s') := by
    simp [readRecordRound, hread, readRecordSwitch, Scan.leaveAtEof, h.outside]
  exact ⟨s', .eof (.leave hround), hsame.metadata_eq⟩

variable (mode : RecoveryMode)

lemma readsAll_openFile (number : Numbered opts recycle)
    (plain : ∀ e ∈ log, e.entry.setsCompression = false) (layout : Layout 0 (logItems log) off') :
    ∃ s : Reader C, ReadsAll opts mode
        (startScan (openFile C (itemBytes opts.crc opts.logNumber (logItems log))))
        (log.filterMap (·.entry.record?)) s ∧
      s.metadata = log.foldl (fun m e => takeIn opts mode m e.entry) ([], []) := by
  have h : Between recycle
      (startScan (openFile C (itemBytes opts.crc opts.logNumber (logItems log))))
      (itemBytes opts.crc opts.logNumber (logItems log) ++ []) 0 := by
    rw [append_nil]
    exact between_openFile C recycle _
  obtain ⟨s, hall, hs⟩ := readsAll_log mode []
    (P := fun s => s.metadata = log.foldl (fun m e => takeIn opts mode m e.entry) ([], []))
    number plain _ layout h (by
      intro l' hl' hmeta
      obtain ⟨s, hs, hmeta'⟩ := hl'.eof opts mode
      exact ⟨s, hs, hmeta'.trans hmeta⟩)
  exact ⟨s, by simpa using hall, hs⟩

/-! ## A number that does not fit -/

lemma recyclable_of_recordItems {begins : Bool} {pieces : List Slice}
    (h : RecordItems true begins pieces items) (hf : Item.fragment f ∈ items) :
    f.type.isLegacy = false := by
  induction h with
  | last begins piece =>
    cases mem_singleton.1 hf
    simp
  | more begins piece _ ih =>
    rcases mem_cons.1 hf with hf | hf
    · cases hf
      simp
    · exact ih hf
  | padding _ _ ih => exact ih (by simpa using hf)

/-- In a log of the recyclable format every fragment has the long header. -/
lemma recyclable_of_entryItems {e : Entry} (h : EntryItems true e items)
    (plain : e.setsCompression = false) (hf : Item.fragment f ∈ items) : f.type.isLegacy = false := by
  induction h with
  | record h => exact recyclable_of_recordItems h hf
  | predecessorWALInfo info | timestampSizes sizes =>
    cases mem_singleton.1 hf
    rfl
  | compressionType payload => exact absurd plain (by simp [Entry.setsCompression])
  | padding n _ ih => exact ih plain (by simpa using hf)

lemma recyclable_of_logItems {log : List (LoggedEntry true)}
    (plain : ∀ e ∈ log, e.entry.setsCompression = false) (hf : Item.fragment f ∈ logItems log) :
    f.type.isLegacy = false := by
  obtain ⟨e, he, hf⟩ := mem_flatMap.1 hf
  exact recyclable_of_entryItems e.describes (plain e he) hf

/-- Leaving at an old record is not a corruption. -/
lemma exists_leaveAtOldRecord (outside : l.inFragmentedRecord = false)
    (clean : Uncorrupted l.reader.reports) :
    ∃ s, l.leaveAtOldRecord mode = (none, s) ∧ Uncorrupted s.reports := by
  unfold Scan.leaveAtOldRecord
  rw [outside]
  by_cases hmode : mode = .pointInTimeRecovery
  · refine ⟨_, by simp [hmode]; rfl, ?_⟩
    intro r hr
    rcases mem_append.1 hr with hr | hr
    · exact clean r hr
    · cases mem_singleton.1 hr
      rfl
  · exact ⟨l.reader, by simp [hmode], clean⟩

/-- Records with another number than the reader's are never returned, and the reader does
not take them for a corruption. -/
lemma readsAll_old {logNumber : UInt64} (l : Scan C)
    (number : logNumber.toNat % 2 ^ 32 ≠ opts.logNumber.toNat)
    (recyclable : ∀ f, Item.fragment f ∈ items → f.type.isLegacy = false)
    (layout : Layout off items off') (clean : Uncorrupted l.reader.reports)
    (h : Between true l (itemBytes opts.crc logNumber items) off) :
    ∃ s, ReadsAll opts mode l [] s ∧ Uncorrupted s.reports := by
  induction layout generalizing l with
  | nil =>
    obtain ⟨s, hs, hmeta⟩ := h.eof opts mode
    exact ⟨s, hs, by rwa [show s.reports = l.reader.reports from congrArg Prod.snd hmeta]⟩
  | @fragment off off' f items length_le fits layout ih =>
    have hf := recyclable f mem_cons_self
    rw [itemBytes_cons] at h
    obtain ⟨s', hread, haligned, hsame, hrec⟩ :=
      h.at_rest.oldFragment length_le fits (fun _ => h.gate rfl) hf number
    have hclean : Uncorrupted s'.reports := by rwa [hsame.reports]
    by_cases hmode : mode = .skipAnyCorruptedRecords
    · have hround : readRecordRound opts mode l = .next { l with reader := s' } := by
        simp [readRecordRound, hread, readRecordSwitch, hmode, Scan.dropPartial, h.outside]
      obtain ⟨s, hs, hclean'⟩ := ih { l with reader := s' }
        (fun f hf => recyclable f (mem_cons_of_mem _ hf)) hclean
        ⟨haligned.at, h.outside, fun _ _ => by simp [hrec, hf]⟩
      exact ⟨s, hs.of_reaches (.single hround), hclean'⟩
    · have hround : readRecordRound opts mode l =
          .leave ({ l with reader := s' }.leaveAtOldRecord mode) := by
        simp [readRecordRound, hread, readRecordSwitch, hmode]
      obtain ⟨s, hleave, hclean'⟩ :=
        exists_leaveAtOldRecord (l := { l with reader := s' }) mode h.outside hclean
      rw [hleave] at hround
      exact ⟨s, .eof (.leave hround), hclean'⟩
  | padding le layout ih =>
    rw [itemBytes_cons] at h
    obtain ⟨l', hreach, hl', hmeta⟩ := h.padding opts mode (by omega)
    have hclean : Uncorrupted l'.reader.reports := by
      rwa [show l'.reader.reports = l.reader.reports from congrArg Prod.snd hmeta]
    obtain ⟨s, hs, hclean'⟩ :=
      ih l' (fun f hf => recyclable f (mem_cons_of_mem _ hf)) hclean hl'
    exact ⟨s, hs.of_reaches hreach, hclean'⟩

/-! ## Writing, then reading -/

lemma ready_create (logNumber : UInt64) (recycle track : Bool) :
    (Writer.create logNumber recycle track).Ready :=
  ⟨Nat.zero_le _, rfl, rfl⟩

lemma forall_unreported_iff : (∀ e ∈ log, Unreported opts mode e.entry) ↔
      (∀ info ∈ log.flatMap (·.entry.infos), predecessorMismatch opts mode info = none) ∧
        ∀ entry ∈ log.flatMap (·.entry.sizes), entry.2 % 2 ^ 16 ≠ 0 := by
  simp only [mem_flatMap, forall_exists_index, and_imp, Unreported]
  constructor
  · intro h
    exact ⟨fun info e he hinfo => (h e he).1 info hinfo, fun entry e he hentry =>
      (h e he).2 entry hentry⟩
  · intro h e he
    exact ⟨fun info hinfo => h.1 info e he hinfo, fun entry hentry => h.2 entry e he hentry⟩

/-- The sizes that were recorded are those of the calls that are not zero. -/
lemma forall_recorded_iff {crc : Crc32c} {w : Writer} {logNumber : UInt64} {track : Bool}
    {cs : List WriterCall} {P : UInt32 × ℕ → Prop}
    (h : (Writer.create logNumber recycle track).calls crc C cs = some w) :
    (∀ entry ∈ w.recordedCfToTsSz, P entry) ↔
      ∀ entry ∈ Writer.sizesOf cs, entry.2 ≠ 0 → P entry := by
  have hmem := mem_recorded_calls (ready_create logNumber recycle track) h
  constructor
  · intro hall entry hentry hne
    exact hall entry ((hmem entry).2 (.inr ⟨hentry, hne⟩))
  · intro hall entry hentry
    rcases (hmem entry).1 hentry with hbefore | ⟨hin, hne⟩
    · exact absurd hbefore (by simp [create])
    · exact hall entry hin hne

/-- When the number of a recyclable log does not fit its header, no record is read. -/
lemma readsAll_of_number {w : Writer} {track : Bool} {cs : List WriterCall}
    (number : 2 ^ 32 ≤ opts.logNumber.toNat)
    (h : (Writer.create opts.logNumber true track).calls opts.crc C cs = some w) :
    ∃ s : Reader C, ReadsAll opts mode (startScan (openFile C w.dest)) [] s ∧
      Uncorrupted s.reports := by
  obtain ⟨log, hlogs, -⟩ := calls_spec (ready_create _ _ _) rfl (by simp [create]) h
  have hdest : w.dest = itemBytes opts.crc opts.logNumber (logItems log) := by
    simpa [create] using hlogs.dest
  have hmod : opts.logNumber.toNat % 2 ^ 32 ≠ opts.logNumber.toNat := by
    have := Nat.mod_lt opts.logNumber.toNat (show 0 < 2 ^ 32 by decide)
    omega
  rw [hdest]
  exact readsAll_old mode _ hmod (fun f hf => recyclable_of_logItems hlogs.plain hf) hlogs.layout
    (by simp [Uncorrupted, startScan, openFile]) (between_openFile C true _)

/-- The calls on a new writer go through exactly when their asserts hold. -/
lemma exists_create_calls_iff (crc : Crc32c) (C : Streaming) (logNumber : UInt64) {track : Bool}
    {cs : List WriterCall} : (∃ w, (Writer.create logNumber recycle track).calls crc C cs = some w) ↔
      Writer.Admits recycle track true [] cs :=
  exists_calls_iff (ready_create logNumber recycle track)

/-- A log read by its own number, when it fits: all records are read, and there is no report
but of metadata. -/
lemma readsAll_calls {w : Writer} {track : Bool} {cs : List WriterCall}
    (number : Numbered opts recycle)
    (h : (Writer.create opts.logNumber recycle track).calls opts.crc C cs = some w) :
    ∃ s : Reader C, ReadsAll opts mode (startScan (openFile C w.dest)) (Writer.recordsOf cs) s ∧
      (Uncorrupted s.reports ↔
        (track = true → ∀ info ∈ Writer.infosOf cs, predecessorMismatch opts mode info = none) ∧
          ∀ entry ∈ Writer.sizesOf cs, entry.2 ≠ 0 → entry.2 % 2 ^ 16 ≠ 0) := by
  obtain ⟨log, hlogs, hnodup, hends, hinfos⟩ :=
    calls_spec (ready_create _ _ _) rfl (by simp [create]) h
  have hdest : w.dest = itemBytes opts.crc opts.logNumber (logItems log) := by
    simpa [create] using hlogs.dest
  have hrecords : log.filterMap (·.entry.record?) = recordsOf cs := by
    rw [← map_fst_logEnds, hends, map_fst_written h]
  have hsizes : w.recordedCfToTsSz = log.flatMap (·.entry.sizes) := by
    simpa [create] using hlogs.recorded
  obtain ⟨s, hs, hmeta⟩ := readsAll_openFile (C := C) mode number hlogs.plain hlogs.layout
  refine ⟨s, ?_, ?_⟩
  · rw [hdest, ← hrecords]
    exact hs
  · have hreports : s.reports = (log.foldl (fun m e => takeIn opts mode m e.entry) ([], [])).2 :=
      congrArg Prod.snd hmeta
    rw [hreports, uncorrupted_foldl_iff (by simp [Uncorrupted]) (by simpa [← hsizes] using hnodup),
      forall_unreported_iff, hinfos, ← hsizes, forall_recorded_iff h]
    cases track <;> simp [create]

/-- **Round trip.** What a writer without compression was given is written, and read back in
order and without a report of corruption, exactly when

* the asserts of the writer hold, among them that the timestamp sizes of one call fit a block;
* the log has the short format or its number fits the header (or there is nothing to read back);
* the recorded predecessors agree with the one the reader knows, and
* no timestamp size vanishes in its 16 bits. -/
theorem roundTrips_iff (C : Streaming) (opts : ReaderOptions) (mode : RecoveryMode)
    (recycle track : Bool) (cs : List WriterCall) :
    (∃ w, (Writer.create opts.logNumber recycle track).calls opts.crc C cs = some w ∧
        RoundTrips C opts mode w.dest (Writer.recordsOf cs)) ↔
      Writer.Admits recycle track true [] cs ∧
        if recycle = true ∧ 2 ^ 32 ≤ opts.logNumber.toNat then Writer.recordsOf cs = []
        else (track = true → ∀ info ∈ Writer.infosOf cs, predecessorMismatch opts mode info = none) ∧
          ∀ entry ∈ Writer.sizesOf cs, entry.2 ≠ 0 → entry.2 % 2 ^ 16 ≠ 0 := by
  rw [← exists_create_calls_iff opts.crc C opts.logNumber, ← exists_and_right]
  refine exists_congr fun w => and_congr_right fun h => ?_
  split
  · rename_i hbad
    obtain ⟨rfl, hnumber⟩ := hbad
    obtain ⟨s, hs, hclean⟩ := readsAll_of_number mode hnumber h
    constructor
    · intro hround
      obtain ⟨s', hs', -⟩ := hround
      exact (hs'.unique hs).1
    · intro hnone
      exact ⟨s, hnone ▸ hs, hclean⟩
  · rename_i hgood
    have number : Numbered opts recycle := by
      intro hr
      by_contra hlarge
      exact hgood ⟨hr, by omega⟩
    obtain ⟨s, hs, hclean⟩ := readsAll_calls mode number h
    rw [← hclean]
    constructor
    · intro hround
      obtain ⟨s', hs', hclean'⟩ := hround
      rwa [(hs.unique hs').2]
    · intro hclean'
      exact ⟨s, hs, hclean'⟩

/-- A log with a record, a predecessor and two timestamp sizes between two records. -/
theorem roundTrips_iff_small : ∃ w,
    (Writer.create 5 true true).calls .additive .copying
      [.addRecord [1, 2] 1, .maybeAddPredecessorWALInfo (some ⟨4, 0, 0⟩),
        .maybeAddUserDefinedTimestampSizeRecord [(1, 8), (2, 0), (3, 16)],
        .addRecord [] 2] = some w ∧
      RoundTrips .copying (plainOptions 5) .tolerateCorruptedTailRecords w.dest [[1, 2], []] :=
  (roundTrips_iff .copying (plainOptions 5) .tolerateCorruptedTailRecords true true
    [.addRecord [1, 2] 1, .maybeAddPredecessorWALInfo (some ⟨4, 0, 0⟩),
      .maybeAddUserDefinedTimestampSizeRecord [(1, 8), (2, 0), (3, 16)], .addRecord [] 2]).2
    (by decide +kernel)

/-- The records of a recyclable log with a number of 33 bits are lost. -/
theorem not_roundTrips_large_number : ∃ w,
    (Writer.create 0x100000000 true false).calls .additive .copying [.addRecord [1, 2] 1] = some w ∧
    ¬ RoundTrips .copying (plainOptions 0x100000000) .tolerateCorruptedTailRecords w.dest
      [[1, 2]] := by
  have hsome : ((create 0x100000000 true false).calls .additive .copying
      [.addRecord [1, 2] 1]).isSome := by decide +kernel
  refine ⟨_, (some_get hsome).symm, ?_⟩
  rintro ⟨s, hs, -⟩
  obtain ⟨s', hs', -⟩ : ∃ s : Reader .copying, ReadsAll (plainOptions 0x100000000) _ _ [] s ∧ _ :=
    readsAll_of_number .tolerateCorruptedTailRecords (by decide +kernel) (some_get hsome).symm
  exact absurd (hs.unique hs').1 (by simp)

end Reader

end BucketLSM.Log
