import Mathlib
import BucketLSM.Log.RoundTrip

/-!
# A log that was cut off

A crash may leave any number of the bytes of a log. In the mode that tolerates this the
reader returns the records that are there completely. The cut may fall into a header, into a
payload, into padding or between two fragments; the reader leaves each through another exit.
-/

namespace BucketLSM.Log

open Lib List Item Writer

namespace Reader

variable {C : Streaming} {opts : ReaderOptions} {off off' : ℕ} {rest : Slice}

/-! ## A cut physical record -/

/-- The outcomes of `ReadPhysicalRecord` that end the log without a report, where that is
tolerated. -/
def Ends (p : Physical) (s : Reader C) : Prop :=
  p.code = .eof ∨ p.code = .badHeader ∨ p.code = .badRecordLen ∧ s.eof = true

lemma round_ends {l : Scan C} {p : Physical} {s' : Reader C}
    (hread : readPhysicalRecord opts l.reader = some (p, s')) (hends : Ends p s') :
    readRecordRound opts .tolerateCorruptedTailRecords l = .leave (none, s') := by
  have hstrict : RecoveryMode.tolerateCorruptedTailRecords.strict = false := by decide
  simp only [readRecordRound, hread, readRecordSwitch]
  rcases hends with h | h | ⟨h, heof⟩
  · simp [h, Scan.leaveAtEof, Scan.reportStrict, hstrict]
  · simp [h, Scan.leaveAtEof, Scan.reportStrict, hstrict]
  · simp [h, heof, Scan.reportStrict, hstrict]

variable {s : Reader C} {f : Fragment} {m : ℕ}

/-- What is left of the file does not fill the block: it is in the buffer. -/
lemma Aligned.eof_of_lt (h : Aligned s rest off) (short : off + rest.length < blockSize) :
    s.eof = true ∧ s.buffer = rest := by
  have hlen := congrArg length h.content
  rw [length_append] at hlen
  rcases h.place with ⟨-, hfull⟩ | ⟨heof, hnil, -⟩
  · omega
  · exact ⟨heof, by simpa [hnil] using h.content⟩

lemma physicalRound_short (opts : ReaderOptions) (heof : s.eof = true)
    (short : s.buffer.length < headerSize) :
    ∃ p s', physicalRound opts s = .leave (p, s') ∧ Ends p s' ∧ SameLog s s' := by
  have hround : physicalRound opts s = moreRound s := by simp [physicalRound, short]
  by_cases hbuf : s.buffer.length = 0
  · have hmore : s.readMore = (some (.eof, 0), { s with buffer := [] }) := by
      simp [readMore, heof, hbuf]
    rw [moreRound, hmore] at hround
    exact ⟨_, _, hround, .inl rfl, ⟨rfl, rfl, rfl⟩⟩
  · have hmore : s.readMore = (some (.badHeader, s.buffer.length), { s with buffer := [] }) := by
      simp [readMore, heof, hbuf]
    rw [moreRound, hmore] at hround
    exact ⟨_, _, hround, .inr (.inl rfl), ⟨rfl, rfl, rfl⟩⟩

lemma physicalRound_cut (legacy : f.type.isLegacy = true) (length_le : f.payload.length ≤ 0xffff)
    (heof : s.eof = true) (hbuf : s.buffer = (f.encode opts.crc opts.logNumber).take m)
    (hm : m < f.size) (hlong : 7 ≤ m) :
    ∃ p s', physicalRound opts s = .leave (p, s') ∧ Ends p s' ∧ SameLog s s' := by
  have hlen : s.buffer.length = m := by
    rw [hbuf, length_take, Fragment.length_encode]
    omega
  have hparse : Header.parse s.buffer = ⟨f.type.code, f.payload.length⟩ := by
    rw [hbuf, parse_take _ hlong, ← append_nil (f.encode _ _), Header.parse_encode length_le]
  have hround : physicalRound opts s = .leave (⟨.badRecordLen, [], s.buffer.length⟩,
      { s with buffer := [] }) := by
    have hshort : s.buffer.length < (⟨f.type.code, f.payload.length⟩ : Header).size +
        f.payload.length := by
      rw [Header.size_code, hlen]
      exact hm
    unfold physicalRound checkRecord
    rw [if_neg (by simp only [headerSize]; omega)]
    dsimp only
    rw [hparse]
    simp [Header.recyclable, legacy, hshort]
  exact ⟨_, _, hround, .inr (.inr ⟨rfl, heof⟩), ⟨rfl, rfl, rfl⟩⟩

/-- A few bytes end the log if they do once they are all that is left in the buffer. -/
lemma At.ends {rest : Slice} (h : At s rest off) (short : off + rest.length < blockSize)
    (hcut : ∀ s₁ : Reader C, s₁.eof = true → s₁.buffer = rest →
      ∃ p s', physicalRound opts s₁ = .leave (p, s') ∧ Ends p s' ∧ SameLog s₁ s') :
    ∃ p s', readPhysicalRecord opts s = some (p, s') ∧ Ends p s' ∧ SameLog s s' := by
  obtain ⟨⟨p, s'⟩, hread, hends, hsame⟩ := h.exists_read opts
    (P := fun r => Ends r.1 r.2 ∧ SameLog s r.2) (by
    intro s₁ h₁ hsame₁ _
    obtain ⟨heof, hbuf⟩ := h₁.eof_of_lt short
    obtain ⟨p, s', hround, hends, hsame'⟩ := hcut s₁ heof hbuf
    exact ⟨(p, s'), hround, hends, hsame₁.trans hsame'⟩)
  exact ⟨p, s', hread, hends, hsame⟩

/-- A record of the short format that is cut anywhere ends the log. -/
lemma At.cutFragment (h : At s ((f.encode opts.crc opts.logNumber).take m) off)
    (legacy : f.type.isLegacy = true) (length_le : f.payload.length ≤ 0xffff)
    (fits : off + f.size ≤ blockSize) (hm : m < f.size) :
    ∃ p s', readPhysicalRecord opts s = some (p, s') ∧ Ends p s' ∧ SameLog s s' := by
  have hlen : ((f.encode opts.crc opts.logNumber).take m).length = m := by
    rw [length_take, Fragment.length_encode]
    omega
  refine h.ends (by omega) fun s₁ heof hbuf => ?_
  by_cases hlong : 7 ≤ m
  · exact physicalRound_cut legacy length_le heof hbuf hm hlong
  · exact physicalRound_short opts heof (by rw [hbuf, hlen, headerSize]; omega)

lemma At.cutPadding (opts : ReaderOptions) (h : At s (List.replicate m 0) off)
    (short : off + m < blockSize) (hm : m < headerSize) :
    ∃ p s', readPhysicalRecord opts s = some (p, s') ∧ Ends p s' ∧ SameLog s s' := by
  refine h.ends (by rwa [length_replicate]) fun s₁ heof hbuf => ?_
  exact physicalRound_short opts heof (by rwa [hbuf, length_replicate])

/-! ## A cut entry -/

lemma numbered_legacy (opts : ReaderOptions) : Numbered opts false :=
  fun h => absurd h (by simp)

lemma gate_legacy (s : Reader C) : Gate false s :=
  fun h => absurd h (by simp)

/-- A log that is cut in its first item, or behind it. -/
lemma take_item_cases (front back : Slice) (m : ℕ) :
    m < front.length ∧ (front ++ back).take m = front.take m ∨
      front.length ≤ m ∧ (front ++ back).take m = front ++ back.take (m - front.length) := by
  rcases Nat.lt_or_ge m front.length with h | h
  · exact .inl ⟨h, take_append_of_le_length (by omega)⟩
  · refine .inr ⟨h, ?_⟩
    rw [take_append, take_of_length_le h]

lemma take_padding_cases (crc : Crc32c) (logNumber : UInt64) (n : ℕ) (back : Slice) (m : ℕ) :
    m < n ∧ (bytes crc logNumber (.padding n) ++ back).take m = List.replicate m 0 ∨
      n ≤ m ∧ (bytes crc logNumber (.padding n) ++ back).take m =
        bytes crc logNumber (.padding n) ++ back.take (m - n) := by
  have hlen : (bytes crc logNumber (.padding n)).length = n := length_replicate
  rcases take_item_cases (bytes crc logNumber (.padding n)) back m with ⟨hlt, htake⟩ | ⟨hle, htake⟩
  · rw [hlen] at hlt
    rw [bytes, take_replicate, Nat.min_eq_left (by omega)] at htake
    exact .inl ⟨hlt, htake⟩
  · rw [hlen] at hle htake
    exact .inr ⟨hle, htake⟩

/-- The call returns no record and reports nothing. -/
def EndsQuietly (opts : ReaderOptions) (l : Scan C) : Prop :=
  ∃ s', Loop.Returns (readRecordRound opts .tolerateCorruptedTailRecords) l (none, s') ∧
    s'.metadata = l.reader.metadata

lemma returns_cutFragment (legacy : f.type.isLegacy = true)
    (length_le : f.payload.length ≤ 0xffff) (fits : off + f.size ≤ blockSize) (l : Scan C)
    (h : At l.reader ((f.encode opts.crc opts.logNumber).take m) off) (hm : m < f.size) :
    EndsQuietly opts l := by
  obtain ⟨p, s', hread, hends, hsame⟩ := h.cutFragment legacy length_le fits hm
  exact ⟨s', .leave (round_ends hread hends), hsame.metadata_eq⟩

/-- A data record that is cut is not returned, whatever of it was read before. -/
lemma returns_cutRecord {begins : Bool} {pieces : List Slice} {items : List Item}
    (hitems : RecordItems false begins pieces items) (l : Scan C) (layout : Layout off items off')
    (inside : l.inFragmentedRecord = !begins)
    (hm : m < (itemBytes opts.crc opts.logNumber items).length)
    (h : At l.reader ((itemBytes opts.crc opts.logNumber items).take m) off) :
    EndsQuietly opts l := by
  induction hitems generalizing l off m with
  | last begins piece =>
    cases layout with
    | fragment length_le fits layout =>
      rw [itemBytes_cons, itemBytes_nil, append_nil] at h hm
      exact returns_cutFragment (isLegacy_fragmentType _ _ _) length_le fits l h
        (by simpa [bytes] using hm)
  | @more pieces items begins piece hitems ih =>
    cases layout with
    | fragment length_le fits layout =>
      rw [itemBytes_cons] at h hm
      rcases take_item_cases (bytes opts.crc opts.logNumber (.fragment
        ⟨fragmentType false begins false, piece⟩)) (itemBytes opts.crc opts.logNumber items) m with
        ⟨hlt, htake⟩ | ⟨hle, htake⟩
      · rw [htake] at h
        exact returns_cutFragment (isLegacy_fragmentType _ _ _) length_le fits l h
          (by simpa [bytes] using hlt)
      · rw [htake] at h
        obtain ⟨s', hround, haligned, hsame, -⟩ :=
          round_fragment .tolerateCorruptedTailRecords (numbered_legacy opts) (gate_legacy _)
            (isLegacy_fragmentType _ _ _) (fragmentType_ne_zero _ _ _) length_le fits h
        rw [ofByte_fragmentType] at hround
        rw [length_append] at hm
        cases begins with
        | true =>
          have hnext := hround.trans (switch_first inside)
          obtain ⟨s'', hreturn, hmeta⟩ :=
            ih ⟨s', true, _, piece⟩ layout rfl (by omega) haligned.at
          exact ⟨s'', .next hnext hreturn, hmeta.trans hsame.metadata_eq⟩
        | false =>
          have hnext := hround.trans (switch_middle inside)
          obtain ⟨s'', hreturn, hmeta⟩ :=
            ih ⟨s', l.inFragmentedRecord, _, l.scratch ++ piece⟩ layout inside (by omega)
              haligned.at
          exact ⟨s'', .next hnext hreturn, hmeta.trans hsame.metadata_eq⟩
  | @padding pieces items n short hitems ih =>
    cases layout with
    | padding le layout =>
      rw [itemBytes_cons] at h hm
      rw [length_append, bytes, length_replicate] at hm
      rcases take_padding_cases opts.crc opts.logNumber (blockSize - off)
        (itemBytes opts.crc opts.logNumber items) m with ⟨hlt, htake⟩ | ⟨hle, htake⟩
      · rw [htake] at h
        obtain ⟨p, s', hread, hends, hsame⟩ := h.cutPadding opts (by omega) (by omega)
        exact ⟨s', .leave (round_ends hread hends), hsame.metadata_eq⟩
      · rw [htake] at h
        rcases h.padding opts (by omega) with h | ⟨hlong, -⟩
        · exact ih l layout inside (by omega) h
        · simp only [headerSize] at short
          omega

/-- Padding that ends the file is passed over, and then the calls end. -/
lemma returns_cutPadding (opts : ReaderOptions) (l : Scan C)
    (h : Between false l (List.replicate m 0) off) (short : off + m < blockSize) :
    EndsQuietly opts l := by
  by_cases hm : m < headerSize
  · obtain ⟨p, s', hread, hends, hsame⟩ := h.at_rest.cutPadding opts short hm
    exact ⟨s', .leave (round_ends hread hends), hsame.metadata_eq⟩
  · have hlong : 7 ≤ m := by
      simp only [headerSize] at hm
      omega
    obtain ⟨⟨p, s₁⟩, hread, hp, h₁, hsame⟩ := h.at_rest.exists_read opts
      (P := fun r => r.1 = ⟨.badRecord, [], 0⟩ ∧ Aligned r.2 [] (off + m) ∧
        SameLog l.reader r.2) (by
      intro s₁ h₁ hsame₁ _
      obtain ⟨heof, hbuf⟩ := h₁.eof_of_lt (by rwa [length_replicate])
      refine ⟨_, physicalRound_zeros hlong hbuf, rfl, ?_,
        ⟨hsame₁.first, hsame₁.recorded, hsame₁.reports⟩⟩
      rw [← append_nil (replicate m (0 : Byte))] at h₁
      rw [← length_replicate (n := m) (a := (0 : Byte))]
      exact h₁.drop (by simpa using hbuf) rfl rfl rfl rfl rfl)
    subst hp
    have hround : readRecordRound opts .tolerateCorruptedTailRecords l =
        .next { l with reader := s₁ } := by
      simp [readRecordRound, hread, readRecordSwitch, Scan.dropPartial, h.outside]
    obtain ⟨s', hread', hsame', -⟩ := h₁.at.eof opts
    have hend : readRecordRound opts .tolerateCorruptedTailRecords { l with reader := s₁ } =
        .leave (none, s') := round_ends hread' (.inl rfl)
    exact ⟨s', .next hround (.leave hend), (hsame.trans hsame').metadata_eq⟩

/-- An entry that is cut is not read: the calls end without a report. -/
lemma returns_cutEntry {e : Entry} {items : List Item} (he : EntryItems false e items)
    (plain : e.setsCompression = false) (l : Scan C) (layout : Layout off items off')
    (hm : m < (itemBytes opts.crc opts.logNumber items).length)
    (h : Between false l ((itemBytes opts.crc opts.logNumber items).take m) off) :
    EndsQuietly opts l := by
  induction he generalizing l off m with
  | record hitems => exact returns_cutRecord hitems l layout h.outside hm h.at_rest
  | predecessorWALInfo info | timestampSizes sizes =>
    cases layout with
    | fragment length_le fits layout =>
      rw [itemBytes_cons, itemBytes_nil, append_nil] at h hm
      exact returns_cutFragment rfl length_le fits l h.at_rest (by simpa [bytes] using hm)
  | compressionType payload => exact absurd plain (by simp [Entry.setsCompression])
  | @padding e items n he ih =>
    cases layout with
    | padding le layout =>
      rw [itemBytes_cons] at h hm
      rw [length_append, bytes, length_replicate] at hm
      rcases take_padding_cases opts.crc opts.logNumber (blockSize - off)
        (itemBytes opts.crc opts.logNumber items) m with ⟨hlt, htake⟩ | ⟨hle, htake⟩
      · rw [htake] at h
        exact returns_cutPadding opts l h (by omega)
      · rw [htake] at h
        obtain ⟨l', hreach, hl', hmeta⟩ :=
          h.padding opts .tolerateCorruptedTailRecords (by omega)
        obtain ⟨s', hreturn, hmeta'⟩ :=
          ih plain l' layout (by omega) hl'
        exact ⟨s', hreach.returns.2 hreturn, hmeta'.trans hmeta⟩

/-! ## A cut log -/

section Ends

variable {crc : Crc32c} {logNumber : UInt64} {recycle : Bool} {start : ℕ}
  {e : LoggedEntry recycle} {log : List (LoggedEntry recycle)}

lemma logEnds_cons_of_record {r : Slice} (h : e.entry.record? = some r) :
    logEnds crc logNumber start (e :: log) =
      (r, start + (itemBytes crc logNumber e.items).length) ::
        logEnds crc logNumber (start + (itemBytes crc logNumber e.items).length) log := by
  simp [logEnds, h]

lemma logEnds_cons_of_none (h : e.entry.record? = none) : logEnds crc logNumber start (e :: log) =
      logEnds crc logNumber (start + (itemBytes crc logNumber e.items).length) log := by
  simp [logEnds, h]

lemma le_of_mem_logEnds {p : Slice × ℕ} (h : p ∈ logEnds crc logNumber start log) :
    start ≤ p.2 := by
  induction log generalizing start with
  | nil => simp [logEnds] at h
  | cons e log ih =>
    cases hr : e.entry.record? with
    | none =>
      rw [logEnds_cons_of_none hr] at h
      have := ih h
      omega
    | some r =>
      rw [logEnds_cons_of_record hr] at h
      rcases mem_cons.1 h with rfl | h
      · exact Nat.le_add_right _ _
      · have := ih h
        omega

/-- No record of a log ends before its first entry does. -/
lemma add_length_le_of_mem_logEnds {p : Slice × ℕ}
    (h : p ∈ logEnds crc logNumber start (e :: log)) :
    start + (itemBytes crc logNumber e.items).length ≤ p.2 := by
  cases hr : e.entry.record? with
  | none =>
    rw [logEnds_cons_of_none hr] at h
    exact le_of_mem_logEnds h
  | some r =>
    rw [logEnds_cons_of_record hr] at h
    rcases mem_cons.1 h with rfl | h
    · exact le_rfl
    · exact le_of_mem_logEnds h

end Ends

/-- Of a log cut at byte `n` the records that end before are returned, and of the metadata
those of some first entries are taken in. -/
lemma readsAll_take {log : List (LoggedEntry false)}
    (plain : ∀ e ∈ log, e.entry.setsCompression = false) (start n : ℕ) (l : Scan C)
    (layout : Layout off (logItems log) off')
    (h : Between false l ((itemBytes opts.crc opts.logNumber (logItems log)).take n) off) :
    ∃ s k, ReadsAll opts .tolerateCorruptedTailRecords l
        (((logEnds opts.crc opts.logNumber start log).filter fun p => p.2 ≤ start + n).map
          Prod.fst) s ∧ s.metadata = (log.take k).foldl
        (fun m e => takeIn opts .tolerateCorruptedTailRecords m e.entry) l.reader.metadata := by
  induction log generalizing l off start n with
  | nil =>
    obtain ⟨s, hs, hmeta⟩ := (by simpa using h : Between false l [] off).eof opts
      .tolerateCorruptedTailRecords
    exact ⟨s, 0, by simpa [logEnds] using hs, by simpa using hmeta⟩
  | cons e log ih =>
    rw [logItems_cons] at layout h
    rw [itemBytes_append] at h
    obtain ⟨mid, layout₁, layout₂⟩ := layout.exists_of_append
    have hplain := plain e mem_cons_self
    have hplain' : ∀ e ∈ log, e.entry.setsCompression = false := fun e he =>
      plain e (mem_cons_of_mem _ he)
    rcases take_item_cases (itemBytes opts.crc opts.logNumber e.items)
      (itemBytes opts.crc opts.logNumber (logItems log)) n with ⟨hlt, htake⟩ | ⟨hle, htake⟩
    · rw [htake] at h
      obtain ⟨s, hreturn, hmeta⟩ := returns_cutEntry e.describes hplain l layout₁ hlt h
      have hnone : (logEnds opts.crc opts.logNumber start (e :: log)).filter
          (fun p => p.2 ≤ start + n) = [] := by
        rw [filter_eq_nil_iff]
        intro p hp
        have := add_length_le_of_mem_logEnds hp
        simp only [decide_eq_true_eq]
        omega
      exact ⟨s, 0, by rw [hnone]; exact .eof hreturn, by simpa using hmeta⟩
    · rw [htake] at h
      have hstop : start + n = start + (itemBytes opts.crc opts.logNumber e.items).length +
          (n - (itemBytes opts.crc opts.logNumber e.items).length) := by omega
      rcases read_entry (numbered_legacy opts) .tolerateCorruptedTailRecords e.describes hplain l
        layout₁ h with ⟨r, s', hr, hreturn, hbetween, hmeta⟩ | ⟨hr, l', hreach, hl', hmeta⟩
      · obtain ⟨s, k, hs, hmetas⟩ := ih hplain' _ _ (startScan s') layout₂ hbetween
        refine ⟨s, k + 1, ?_, ?_⟩
        · rw [logEnds_cons_of_record hr, filter_cons_of_pos (by simp [hle]), hstop]
          exact .record hreturn hs
        · rw [hmetas, take_succ_cons, foldl_cons, ← hmeta]
          rfl
      · obtain ⟨s, k, hs, hmetas⟩ := ih hplain' _ _ l' layout₂ hl'
        refine ⟨s, k + 1, ?_, ?_⟩
        · rw [logEnds_cons_of_none hr, hstop]
          exact hs.of_reaches hreach
        · rw [hmetas, take_succ_cons, foldl_cons, hmeta]

lemma uncorrupted_foldl_take {log : List (LoggedEntry recycle)} {mode : RecoveryMode} (k : ℕ)
    (nodup : ((log.flatMap (·.entry.sizes)).map Prod.fst).Nodup)
    (h : ∀ e ∈ log, Unreported opts mode e.entry) :
    Uncorrupted ((log.take k).foldl (fun m e => takeIn opts mode m e.entry) ([], [])).2 := by
  refine (uncorrupted_foldl_iff (by simp [Uncorrupted]) ?_).2 ?_
  · refine nodup.sublist (Sublist.map _ ?_)
    rw [nil_append]
    exact (take_sublist k log).flatMap _
  · intro e he
    exact h e (mem_of_mem_take he)

/-- What the reader returns of a cut log, and that only metadata can be reported. -/
lemma readsAll_cut {w : Writer} {track : Bool} {cs : List WriterCall} (n : ℕ)
    (h : (Writer.create opts.logNumber false track).calls opts.crc C cs = some w) :
    ∃ s : Reader C, ReadsAll opts .tolerateCorruptedTailRecords
        (startScan (openFile C (w.dest.take n)))
        (((Writer.written opts.crc C (Writer.create opts.logNumber false track) cs).filter
          fun p => p.2 ≤ n).map Prod.fst) s ∧ ((track = true → ∀ info ∈ Writer.infosOf cs,
          predecessorMismatch opts .tolerateCorruptedTailRecords info = none) →
        (∀ entry ∈ Writer.sizesOf cs, entry.2 ≠ 0 → entry.2 % 2 ^ 16 ≠ 0) →
        Uncorrupted s.reports) := by
  obtain ⟨log, hlogs, hnodup, hends, hinfos⟩ :=
    calls_spec (ready_create _ _ _) rfl (by simp [create]) h
  have hdest : w.dest = itemBytes opts.crc opts.logNumber (logItems log) := by
    simpa [create] using hlogs.dest
  have hsizes : w.recordedCfToTsSz = log.flatMap (·.entry.sizes) := by
    simpa [create] using hlogs.recorded
  obtain ⟨s, k, hs, hmeta⟩ := readsAll_take hlogs.plain 0 n _ hlogs.layout
    (between_openFile C false ((itemBytes opts.crc opts.logNumber (logItems log)).take n))
  refine ⟨s, ?_, ?_⟩
  · rw [hdest, ← hends]
    simpa [create] using hs
  · intro hagree hnonzero
    have hreports : s.reports = ((log.take k).foldl
        (fun m e => takeIn opts .tolerateCorruptedTailRecords m e.entry) ([], [])).2 :=
      congrArg Prod.snd hmeta
    rw [hreports]
    refine uncorrupted_foldl_take k (by rwa [← hsizes]) ((forall_unreported_iff _).2 ⟨?_, ?_⟩)
    · rw [hinfos]
      cases track with
      | false => simp [create]
      | true => exact hagree rfl
    · rw [← hsizes]
      exact (forall_recorded_iff h).2 hnonzero

/-- **Torn tail.** A sequence of calls whose asserts hold gives a log. Of such a log of the short
format cut at any byte the reader returns the records that were complete there, in order, and
then the end of the file. When the recorded predecessors agree with the one the reader knows,
and no timestamp size vanishes in its 16 bits, it reports no corruption. -/
theorem tornTail_recovers (C : Streaming) (opts : ReaderOptions) (track : Bool)
    (cs : List WriterCall) (admits : Writer.Admits false track true [] cs) :
    ∃ w, (Writer.create opts.logNumber false track).calls opts.crc C cs = some w ∧
      ∀ n, ∃ s : Reader C, ReadsAll opts .tolerateCorruptedTailRecords
          (startScan (openFile C (w.dest.take n)))
          (((Writer.written opts.crc C (Writer.create opts.logNumber false track) cs).filter
            fun p => p.2 ≤ n).map Prod.fst) s ∧
        ((track = true → ∀ info ∈ Writer.infosOf cs,
            predecessorMismatch opts .tolerateCorruptedTailRecords info = none) →
          (∀ entry ∈ Writer.sizesOf cs, entry.2 ≠ 0 → entry.2 % 2 ^ 16 ≠ 0) →
          Uncorrupted s.reports) := by
  obtain ⟨w, h⟩ := (exists_create_calls_iff _ _ _).2 admits
  exact ⟨w, h, fun n => readsAll_cut n h⟩

/-- Two records of 9 bytes each, with a predecessor between them and cut in the second one:
the first is returned, and nothing is reported. -/
theorem tornTail_recovers_second : ∃ w, (Writer.create 5 false true).calls .additive .copying
      [.addRecord [1, 2] 1, .maybeAddPredecessorWALInfo (some ⟨4, 0, 0⟩), .addRecord [3, 4] 2] =
        some w ∧
    RoundTrips .copying (plainOptions 5) .tolerateCorruptedTailRecords (w.dest.take 45)
      [[1, 2]] := by
  obtain ⟨w, h, hcut⟩ := tornTail_recovers .copying (plainOptions 5) true
    [.addRecord [1, 2] 1, .maybeAddPredecessorWALInfo (some ⟨4, 0, 0⟩), .addRecord [3, 4] 2]
    (by decide +kernel)
  obtain ⟨s, hs, hclean⟩ := hcut 45
  exact ⟨w, h, s, hs, hclean (by decide +kernel) (by decide +kernel)⟩

/-- A reader that verifies the predecessor and knows of none. -/
def verifyingOptions (n : UInt64) : ReaderOptions :=
  { plainOptions n with trackAndVerifyWals := true, minWalNumberToKeep := 0 }

/-- Whole as it is, a log whose predecessor is missing is reported as corrupt. -/
theorem not_roundTrips_missing_predecessor : ∃ w,
    (Writer.create 5 false true).calls .additive .copying
      [.maybeAddPredecessorWALInfo (some ⟨1, 0, 0⟩)] = some w ∧
    ¬ RoundTrips .copying (verifyingOptions 5) .tolerateCorruptedTailRecords
      (w.dest.take w.dest.length) (((Writer.written .additive .copying (Writer.create 5 false true)
        [.maybeAddPredecessorWALInfo (some ⟨1, 0, 0⟩)]).filter
          fun p => p.2 ≤ w.dest.length).map Prod.fst) := by
  have hsome : ((create 5 false true).calls .additive .copying
      [.maybeAddPredecessorWALInfo (some ⟨1, 0, 0⟩)]).isSome := by decide +kernel
  refine ⟨_, (Option.some_get hsome).symm, ?_⟩
  rw [take_length]
  rintro ⟨s, hs, hclean⟩
  obtain ⟨s', hs', hiff⟩ := readsAll_calls (C := .copying) .tolerateCorruptedTailRecords
    (numbered_legacy (verifyingOptions 5)) (Option.some_get hsome).symm
  rw [(hs.unique hs').2] at hclean
  have hnone := (hiff.1 hclean).1 rfl ⟨1, 0, 0⟩ (by decide)
  exact absurd hnone (by decide +kernel)

end Reader

end BucketLSM.Log
