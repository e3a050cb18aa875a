import BucketLSM.Log.Writer
import BucketLSM.Log.Tailing

/-!
# When reading a log comes to an end

Both readers loop until a physical record ends the call. Every exit of `ReadPhysicalRecord`
and of `TryReadFragment` reads on or takes something from the buffer, but for these: a
record of the recyclable format in a log that began with the short one is refused and left
where it is, and the tailing reader leaves a record of another log where it is, too. From
there the call never returns; `readRecord_returns_iff` says that nothing else keeps one.
-/

namespace BucketLSM.Log

open Lib SequentialFile Loop Round Header Refill

lemma SequentialFile.length_read (f : SequentialFile) (n : ℕ) :
    (f.read n).2.1.length + (f.read n).2.2.unread.length = f.unread.length := by
  unfold read
  split <;> simp <;> omega

lemma Header.le_size (h : Header) : headerSize ≤ h.size := by
  unfold size headerSize recyclableHeaderSize
  split <;> omega

namespace Reader

variable {C : Streaming} {opts : ReaderOptions} {mode : RecoveryMode} {s s' : Reader C}

/-! ## `ReadPhysicalRecord` -/

/-- A record of the recyclable format is next, in a log that began with the short one. -/
def Refuses (s : Reader C) : Prop :=
  headerSize ≤ s.buffer.length ∧ (Header.parse s.buffer).recyclable = true ∧
    s.firstRecordRead = true ∧ s.recycled = false

instance (s : Reader C) : Decidable s.Refuses :=
  inferInstanceAs (Decidable (_ ∧ _ ∧ _ ∧ _))

lemma toRead_clear (h : headerSize ≤ s.buffer.length) (hs : s'.file = s.file)
    (hbuf : s'.buffer = []) : s'.toRead < s.toRead := by
  simp only [headerSize] at h
  simp only [toRead, hs, hbuf, List.length_nil]
  omega

variable {h : Header}

lemma toRead_drop (hlen : h.size + h.length ≤ s.buffer.length) (hs : s'.file = s.file)
    (hbuf : s'.buffer = s.buffer.drop (h.size + h.length)) : s'.toRead < s.toRead := by
  have hsize := le_size h
  simp only [headerSize] at hsize
  simp only [toRead, hs, hbuf, List.length_drop]
  omega

lemma toRead_deliver {header : Slice} (hlen : h.size + h.length ≤ s.buffer.length) :
    (s.deliver h header).2.toRead < s.toRead := by
  have hlong : headerSize ≤ s.buffer.length := by
    have := le_size h
    omega
  unfold deliver
  dsimp only
  split
  · exact toRead_drop hlen rfl rfl
  · split
    · exact toRead_drop hlen rfl rfl
    · split
      · exact toRead_clear hlong rfl rfl
      · exact toRead_drop hlen rfl rfl

lemma toRead_checkRecord (hlong : headerSize ≤ s.buffer.length) :
    (checkRecord opts s h).2.toRead < s.toRead := by
  unfold checkRecord
  split
  · exact toRead_clear hlong rfl rfl
  · rename_i hlen
    split
    · exact toRead_drop (by omega) rfl rfl
    · split
      · exact toRead_clear hlong rfl rfl
      · split
        · exact toRead_clear hlong rfl rfl
        · exact toRead_deliver (by omega)

/-- A whole block is read, or what there is of it; at the end of the file nothing is. -/
lemma readMore_cases (s : Reader C) :
    (∃ s', s.readMore = (none, s') ∧ s'.toRead + s.buffer.length + s'.buffer.length = s.toRead ∧
      s'.firstRecordRead = s.firstRecordRead ∧ s'.recycled = s.recycled ∧
      (s'.eof = true ∨ blockSize ≤ s'.buffer.length)) ∨
    ∃ code dropSize s', s.readMore = (some (code, dropSize), s') ∧
      (code = .eof ∨ code = .badHeader) := by
  have hlen := length_read s.file blockSize
  unfold readMore
  generalize s.file.read blockSize = result at hlen ⊢
  obtain ⟨ok, bytes, file⟩ := result
  dsimp only at hlen ⊢
  split
  · split
    · exact .inr ⟨_, _, _, rfl, .inl rfl⟩
    · left
      split
      · refine ⟨_, rfl, ?_, rfl, rfl, .inl rfl⟩
        simp only [toRead]
        omega
      · rename_i hlong
        refine ⟨_, rfl, ?_, rfl, rfl, .inr (by simpa using hlong)⟩
        simp only [toRead]
        omega
  · split
    · exact .inr ⟨_, _, _, rfl, .inr rfl⟩
    · exact .inr ⟨_, _, _, rfl, .inl rfl⟩

lemma readMore_of_eof (h : s.eof = true) : ∃ code dropSize s',
    s.readMore = (some (code, dropSize), s') ∧ (code = .eof ∨ code = .badHeader) := by
  rcases readMore_cases s with ⟨s', hmore, -⟩ | hmore
  · unfold readMore at hmore
    simp only [h, Bool.not_true, Bool.false_and, Bool.false_eq_true, if_false] at hmore
    split at hmore <;> simp at hmore
  · exact hmore

lemma moreRound_of_eof (h : s.eof = true) :
    ∃ p s', moreRound s = .leave (p, s') ∧ (p.code = .eof ∨ p.code = .badHeader) := by
  obtain ⟨code, dropSize, s', hmore, hcode⟩ := readMore_of_eof h
  exact ⟨⟨code, [], dropSize⟩, s', by simp [moreRound, hmore], hcode⟩

/-- What the rounds of `ReadPhysicalRecord` come to: some of the file is read or taken from
the buffer, the call is over, or the record is refused. -/
def Progress (s : Reader C) (p : Physical) (s' : Reader C) : Prop :=
  s'.toRead < s.toRead ∨ p.code = .eof ∨ p.code = .badHeader ∨
    s.Refuses ∧ p.code = .badRecord ∧ s' = s

/-- A round that leaves does so with progress. One that does not has read a block. -/
lemma physicalRound_cases (opts : ReaderOptions) (s : Reader C) :
    (∃ p s', physicalRound opts s = .leave (p, s') ∧ Progress s p s') ∨
    ∃ s', physicalRound opts s = .next s' ∧
      s'.toRead + s.buffer.length + s'.buffer.length = s.toRead ∧
      (s'.eof = true ∨ blockSize ≤ s'.buffer.length) := by
  have hmore (t : Reader C) (ht : t.toRead = s.toRead) (hbuf : t.buffer = s.buffer) :
      (∃ p s', moreRound t = .leave (p, s') ∧ Progress s p s') ∨ ∃ s', moreRound t = .next s' ∧
        s'.toRead + s.buffer.length + s'.buffer.length = s.toRead ∧
        (s'.eof = true ∨ blockSize ≤ s'.buffer.length) := by
    rcases readMore_cases t with ⟨s', heq, hread, -, -, heof⟩ | ⟨code, dropSize, s', heq, hcode⟩
    · exact .inr ⟨s', by simp [moreRound, heq], by rw [← hbuf, hread, ht], heof⟩
    · exact .inl ⟨⟨code, [], dropSize⟩, s', by simp [moreRound, heq], .inr (by tauto)⟩
  unfold physicalRound
  split
  · exact hmore s rfl rfl
  · rename_i hlong
    have hlong : headerSize ≤ s.buffer.length := by omega
    dsimp only
    split
    · rename_i hrec
      split
      · rename_i hrefuse
        simp only [Bool.and_eq_true, Bool.not_eq_true'] at hrefuse
        exact .inl ⟨_, s, rfl, .inr (.inr (.inr ⟨⟨hlong, hrec, hrefuse.1, hrefuse.2⟩, rfl, rfl⟩))⟩
      · split
        · exact hmore { s with recycled := true } rfl rfl
        · exact .inl ⟨_, _, rfl, .inl (toRead_checkRecord (s := { s with recycled := true }) hlong)⟩
    · exact .inl ⟨_, _, rfl, .inl (toRead_checkRecord hlong)⟩

/-- A reader that has just read a block, or what there is of one, finds its record. -/
lemma physicalRound_leaves (opts : ReaderOptions) (h : s.eof = true ∨ blockSize ≤ s.buffer.length) :
    ∃ p s', physicalRound opts s = .leave (p, s') := by
  have hshort (t : Reader C) (ht : t.eof = s.eof) (hbuf : s.buffer.length < recyclableHeaderSize) :
      ∃ p s', moreRound t = .leave (p, s') := by
    have heof : t.eof = true := by
      rcases h with heof | hlong
      · rw [ht, heof]
      · simp only [blockSize, recyclableHeaderSize] at hlong hbuf
        omega
    obtain ⟨p, s', hleave, -⟩ := moreRound_of_eof heof
    exact ⟨p, s', hleave⟩
  unfold physicalRound
  split
  · rename_i hbuf
    exact hshort s rfl (by simp only [headerSize, recyclableHeaderSize] at hbuf ⊢; omega)
  · dsimp only
    split
    · split
      · exact ⟨_, _, rfl⟩
      · split
        · rename_i hbuf
          exact hshort { s with recycled := true } rfl hbuf
        · exact ⟨_, _, rfl⟩
    · exact ⟨_, _, rfl⟩

lemma exists_readPhysicalRecord (opts : ReaderOptions) (s : Reader C) :
    ∃ p s', readPhysicalRecord opts s = some (p, s') ∧ Progress s p s' := by
  rcases physicalRound_cases opts s with ⟨p, s', hleave, hp⟩ | ⟨s₁, hnext, hread, heof⟩
  · exact ⟨p, s', by simp [readPhysicalRecord, run, hleave], hp⟩
  · obtain ⟨p, s', hleave⟩ := physicalRound_leaves opts heof
    refine ⟨p, s', by simp [readPhysicalRecord, run, hnext, hleave], ?_⟩
    rcases physicalRound_cases opts s₁ with ⟨p', s'', hleave', hp⟩ | ⟨s'', hnext', -⟩
    · rw [hleave] at hleave'
      cases hleave'
      rcases hp with hlt | heof | hbad | ⟨⟨hlong, -⟩, -, rfl⟩
      · exact .inl (by omega)
      · exact .inr (.inl heof)
      · exact .inr (.inr (.inl hbad))
      · simp only [headerSize] at hlong
        exact .inl (by omega)
    · rw [hleave] at hnext'
      cases hnext'

lemma readPhysicalRecord_refuses (opts : ReaderOptions) (h : s.Refuses) :
    readPhysicalRecord opts s = some (⟨.badRecord, [], 0⟩, s) := by
  obtain ⟨hlong, hrec, hfirst, hrecycled⟩ := h
  have hround : physicalRound opts s = .leave (⟨.badRecord, [], 0⟩, s) := by
    simp [physicalRound, Nat.not_lt.2 hlong, hrec, hfirst, hrecycled]
  simp [readPhysicalRecord, run, hround]

/-! ## The `switch` of `ReadRecord`

It takes nothing from the buffer and reads nothing. -/

section Switch

variable {l l' : Scan C} {bytes offset : ℕ} {reason : String} {fragment : Slice}

@[simp]
lemma toRead_reportCorruption : (s.reportCorruption bytes reason).toRead = s.toRead := rfl

@[simp]
lemma toRead_report : (l.report bytes reason).reader.toRead = l.reader.toRead := rfl

@[simp]
lemma toRead_metadataAt : (l.metadataAt offset).reader.toRead = l.reader.toRead := rfl

@[simp]
lemma toRead_reportPartial : (l.reportPartial reason).reader.toRead = l.reader.toRead := by
  unfold Scan.reportPartial
  split <;> simp

@[simp]
lemma toRead_dropPartial : l.dropPartial.reader.toRead = l.reader.toRead := by
  unfold Scan.dropPartial
  split <;> simp

@[simp]
lemma toRead_readPredecessorWALInfo :
    (s.readPredecessorWALInfo opts mode fragment).toRead = s.toRead := by
  unfold readPredecessorWALInfo maybeVerifyPredecessorWALInfo
  split
  · simp
  · split <;> rfl

@[simp]
lemma toRead_readTimestampSizes : (s.readTimestampSizes fragment).toRead = s.toRead := by
  unfold readTimestampSizes
  split
  · simp
  · split <;> rfl

@[simp]
lemma toRead_readCompressionType : (s.readCompressionType fragment).toRead = s.toRead := by
  unfold readCompressionType
  split <;> rfl

@[simp]
lemma toRead_checkCompressionType : (s.checkCompressionType fragment).toRead = s.toRead := by
  unfold checkCompressionType
  dsimp only
  split <;> split <;> rfl

lemma toRead_badFragment (h : l.badFragment mode bytes reason = .next l') :
    l'.reader.toRead = l.reader.toRead := by
  unfold Scan.badFragment at h
  split at h
  · cases h
  · cases h
    simp

/-- When the `switch` goes on, it was not at the end of the file. -/
lemma readRecordSwitch_next {p : Physical} (h : readRecordSwitch opts mode offset l p = .next l') :
    l'.reader.toRead = l.reader.toRead ∧ p.code ≠ .eof ∧ p.code ≠ .badHeader := by
  unfold readRecordSwitch at h
  cases hcode : p.code with
  | full | eof | badHeader => simp [hcode] at h
  | first | setCompression | predecessorWALInfo | userDefinedTimestampSize | badRecord =>
    simp only [hcode, next.injEq] at h
    subst h
    simp
  | middle =>
    simp only [hcode] at h
    split at h <;> cases h <;> simp
  | last | oldRecord =>
    simp only [hcode] at h
    split at h <;> cases h
    simp
  | badRecordLen =>
    simp only [hcode] at h
    split at h
    · cases h
    · exact ⟨toRead_badFragment h, by simp, by simp⟩
  | badRecordChecksum =>
    simp only [hcode] at h
    exact ⟨toRead_badFragment h, by simp, by simp⟩
  | unknown type =>
    simp only [hcode, next.injEq] at h
    subst h
    refine ⟨?_, by simp, by simp⟩
    dsimp only
    split <;> simp

lemma refuses_dropPartial (h : l.reader.Refuses) : l.dropPartial.reader.Refuses := by
  unfold Scan.dropPartial
  split
  · exact h
  · exact h

end Switch

/-- A call of `ReadRecord` returns if and only if no round of it meets a record that the
reader refuses. -/
lemma exists_readRecord_iff (opts : ReaderOptions) (mode : RecoveryMode) (s : Reader C) :
    (∃ r s', ReadRecord opts mode s r s') ↔
      ∀ l, Loop.Reaches (readRecordRound opts mode) (startScan s) l → ¬ l.reader.Refuses := by
  refine Prod.exists.symm.trans (exists_returns_iff (fun l : Scan C => l.reader.toRead)
    (fun l => l.reader.Refuses) ?_ ?_)
  · intro l l' hfree hnext
    obtain ⟨p, s', hread, hprogress⟩ := exists_readPhysicalRecord opts l.reader
    simp only [readRecordRound, hread] at hnext
    obtain ⟨hsame, heof, hbad⟩ := readRecordSwitch_next hnext
    rw [hsame]
    rcases hprogress with hlt | h | h | ⟨h, -⟩
    · exact hlt
    · exact absurd h heof
    · exact absurd h hbad
    · exact absurd h hfree
  · intro l hstuck
    refine ⟨l.dropPartial, ?_, refuses_dropPartial hstuck⟩
    simp [readRecordRound, readPhysicalRecord_refuses opts hstuck, readRecordSwitch]

/-! ## `TryReadFragment` -/

lemma unmarkEOFInternal_cases (s : Reader C) : s.unmarkEOFInternal.readError = true ∨
    ∃ bytes, s.unmarkEOFInternal.buffer = s.buffer ++ bytes ∧
      bytes.length + s.unmarkEOFInternal.file.unread.length = s.file.unread.length := by
  have hlen := length_read s.file (blockSize - s.eofOffset)
  unfold unmarkEOFInternal
  dsimp only
  split
  · exact .inl rfl
  · right
    split
    · exact ⟨_, rfl, hlen⟩
    · exact ⟨_, rfl, hlen⟩

lemma unmarkEOFInternal_flags (s : Reader C) :
    s.unmarkEOFInternal.firstRecordRead = s.firstRecordRead ∧
      s.unmarkEOFInternal.recycled = s.recycled := by
  unfold unmarkEOFInternal
  dsimp only
  split
  · exact ⟨rfl, rfl⟩
  · split <;> exact ⟨rfl, rfl⟩

/-- When `TryReadMore` returns true, bytes from the file have taken the place of the buffer
or stand behind it. -/
lemma tryReadMore_true (h : s.tryReadMore = (true, s')) :
    ∃ bytes, (s'.buffer = bytes ∨ s'.buffer = s.buffer ++ bytes) ∧
      bytes.length + s'.file.unread.length = s.file.unread.length ∧
      s'.firstRecordRead = s.firstRecordRead ∧ s'.recycled = s.recycled := by
  unfold tryReadMore at h
  split at h
  · have hlen := length_read s.file blockSize
    generalize s.file.read blockSize = result at hlen h
    obtain ⟨ok, bytes, file⟩ := result
    dsimp only at hlen h
    split at h
    · cases h
    · split at h
      · cases h
        exact ⟨bytes, .inl rfl, hlen, rfl, rfl⟩
      · cases h
        exact ⟨bytes, .inl rfl, hlen, rfl, rfl⟩
  · dsimp only at h
    split at h
    · rename_i hok
      cases h
      unfold unmarkEOF at hok ⊢
      split at hok
      · simp_all
      · rename_i herror
        rw [if_neg herror]
        rcases unmarkEOFInternal_cases { s with eof := false } with hbad | ⟨bytes, hbuf, hlen⟩
        · simp [hbad] at hok
        · exact ⟨bytes, .inr hbuf, hlen, unmarkEOFInternal_flags _⟩
    · cases h

end Reader

namespace Refill

variable {C : Streaming} {need : ℕ} {f f' : Refill C}

/-- Wherever a loop that fills the buffer goes on, there is less to read. -/
lemma round_next (h : round need f = .next f') :
    f'.reader.toRead < f.reader.toRead ∧ f'.reader.firstRecordRead = f.reader.firstRecordRead ∧
      f'.reader.recycled = f.reader.recycled := by
  unfold round at h
  split at h
  · cases h
  · dsimp only at h
    split at h
    · cases h
    · rename_i s' hmore
      split at h
      · cases h
      · rename_i hlen
        cases h
        obtain ⟨bytes, hbuf, hread, hflags⟩ := Reader.tryReadMore_true hmore
        refine ⟨?_, hflags⟩
        simp only [Reader.toRead]
        rcases hbuf with hbuf | hbuf
        · rw [hbuf] at hlen ⊢
          omega
        · rw [hbuf, List.length_append] at hlen ⊢
          omega

lemma returns_refill (need : ℕ) (f : Refill C) : Loop.Returns (round need) f (f.refill need) := by
  have hsome : (run (round need) (f.reader.toRead + 1) f).isSome :=
    run_isSome (fun f : Refill C => f.reader.toRead) (fun _ _ h => (round_next h).1)
      (Nat.lt_succ_self _)
  obtain ⟨r, hr⟩ := Option.isSome_iff_exists.1 hsome
  unfold refill
  rw [hr]
  exact returns_of_run hr

/-- When the bytes are there, they were or something was read to get them. -/
lemma returns_true (h : Loop.Returns (round need) f (true, f')) :
    need ≤ f'.reader.buffer.length ∧ (f' = f ∨ f'.reader.toRead < f.reader.toRead) ∧
      f'.reader.firstRecordRead = f.reader.firstRecordRead ∧
      f'.reader.recycled = f.reader.recycled := by
  generalize hr : (true, f') = r at h
  induction h with
  | leave h =>
    subst hr
    unfold round at h
    split at h
    · rename_i hlen
      cases h
      exact ⟨hlen, .inl rfl, rfl, rfl⟩
    · dsimp only at h
      split at h
      · cases h
      · split at h <;> cases h
  | next h _ ih =>
    obtain ⟨hlt, hfirst, hrecycled⟩ := round_next h
    obtain ⟨hlen, hread, hfirst', hrecycled'⟩ := ih hr
    refine ⟨hlen, .inr ?_, hfirst'.trans hfirst, hrecycled'.trans hrecycled⟩
    rcases hread with rfl | hread
    · exact hlt
    · omega

lemma refill_of_le (h : need ≤ f.reader.buffer.length) : f.refill need = (true, f) := by
  have hround : round need f = .leave (true, f) := by simp [round, h]
  exact (returns_refill need f).unique (.leave hround)

end Refill

namespace Reader

variable {C : Streaming} {opts : ReaderOptions} {overread : Reader C → Slice} {mode : RecoveryMode}
  {s s' : Reader C} {p : Physical} {dropSize : ℕ}

/-- The tailing reader comes to no end here: the record is refused, or it is one of another
log. -/
def Sticks (opts : ReaderOptions) (s : Reader C) : Prop :=
  headerSize ≤ s.buffer.length ∧ (Header.parse s.buffer).recyclable = true ∧
    (s.firstRecordRead = true ∧ s.recycled = false ∨
      recyclableHeaderSize ≤ s.buffer.length ∧ logNum s.buffer ≠ opts.logNumber.toNat)

instance (opts : ReaderOptions) (s : Reader C) : Decidable (s.Sticks opts) :=
  inferInstanceAs (Decidable (_ ∧ _ ∧ _))

lemma readFragmentBody_some {h : Header} {f : Refill C}
    (heq : readFragmentBody opts overread dropSize h f = (some p, s')) :
    s'.toRead < f.reader.toRead := by
  unfold readFragmentBody at heq
  cases hfill : f.refill (h.size + h.length) with
  | mk b f₁ =>
    cases b with
    | false =>
      rw [hfill] at heq
      cases heq
    | true =>
      rw [hfill] at heq
      have hreturns := returns_refill (h.size + h.length) f
      rw [hfill] at hreturns
      obtain ⟨hlen, hread, -⟩ := returns_true hreturns
      have hle : f₁.reader.toRead ≤ f.reader.toRead := by
        rcases hread with rfl | hread
        · exact le_rfl
        · exact hread.le
      have hlong : headerSize ≤ f₁.reader.buffer.length := by
        have := le_size h
        omega
      dsimp only at heq
      refine lt_of_lt_of_le ?_ hle
      split at heq
      · cases heq
        exact toRead_clear hlong rfl rfl
      · split at heq
        · cases heq
          exact toRead_clear hlong rfl rfl
        · cases heq
          exact toRead_deliver hlen

lemma readRecyclable_some (hlong : headerSize ≤ s.buffer.length)
    (hrec : (parse s.buffer).recyclable = true)
    (heq : readRecyclable opts overread dropSize (parse s.buffer) s = (some p, s')) :
    s'.toRead ≤ s.toRead ∧ (s'.toRead < s.toRead ∨ s.Sticks opts) := by
  unfold readRecyclable at heq
  split at heq
  · rename_i hrefuse
    simp only [Bool.and_eq_true, Bool.not_eq_true'] at hrefuse
    cases heq
    exact ⟨le_rfl, .inr ⟨hlong, hrec, .inl hrefuse⟩⟩
  · cases hfill : refill recyclableHeaderSize ⟨{ s with recycled := true }, false⟩ with
    | mk b f =>
      cases b with
      | false =>
        rw [hfill] at heq
        cases heq
      | true =>
        rw [hfill] at heq
        have hreturns := returns_refill recyclableHeaderSize
          (⟨{ s with recycled := true }, false⟩ : Refill C)
        rw [hfill] at hreturns
        obtain ⟨hlen, hread, -⟩ := returns_true hreturns
        dsimp only at heq
        split at heq
        · rename_i hnum
          cases heq
          rcases hread with rfl | hread
          · exact ⟨le_rfl, .inr ⟨hlong, hrec, .inr ⟨hlen, by simpa [header] using hnum⟩⟩⟩
          · exact ⟨hread.le, .inl hread⟩
        · have hlt := readFragmentBody_some heq
          have hle : f.reader.toRead ≤ s.toRead := by
            rcases hread with rfl | hread
            · exact le_rfl
            · exact hread.le
          exact ⟨by omega, .inl (by omega)⟩

/-- A physical record comes with progress, or the reader sticks. -/
lemma tryReadFragment_some (heq : tryReadFragment opts overread dropSize s = (some p, s')) :
    s'.toRead < s.toRead ∨ s.Sticks opts := by
  unfold tryReadFragment at heq
  cases hfill : refill headerSize ⟨s, false⟩ with
  | mk b f =>
    cases b with
    | false =>
      rw [hfill] at heq
      cases heq
    | true =>
      rw [hfill] at heq
      have hreturns := returns_refill headerSize (⟨s, false⟩ : Refill C)
      rw [hfill] at hreturns
      obtain ⟨hlen, hread, -⟩ := returns_true hreturns
      dsimp only at heq
      split at heq
      · rename_i hrec
        obtain ⟨hle, hlt⟩ := readRecyclable_some hlen hrec heq
        rcases hread with rfl | hread
        · exact hlt
        · exact .inl (lt_of_le_of_lt hle hread)
      · have hlt := readFragmentBody_some heq
        rcases hread with rfl | hread
        · exact .inl hlt
        · exact .inl (hlt.trans hread)

lemma tryReadFragment_sticks (overread : Reader C → Slice) (dropSize : ℕ) (h : s.Sticks opts) :
    ∃ p s', tryReadFragment opts overread dropSize s = (some p, s') ∧
      (p.code = .badRecord ∨ p.code = .oldRecord) ∧ s'.Sticks opts := by
  obtain ⟨hlong, hrec, hstick⟩ := h
  have hfragment : tryReadFragment opts overread dropSize s =
      readRecyclable opts overread dropSize (parse s.buffer) s := by
    unfold tryReadFragment
    rw [refill_of_le (f := ⟨s, false⟩) hlong]
    simp [hrec]
  rw [hfragment]
  unfold readRecyclable
  split
  · exact ⟨_, s, rfl, .inl rfl, hlong, hrec, hstick⟩
  · rename_i hadmit
    obtain ⟨hlong', hnum⟩ : recyclableHeaderSize ≤ s.buffer.length ∧
        logNum s.buffer ≠ opts.logNumber.toNat := by
      rcases hstick with hrefuse | hother
      · simp [hrefuse.1, hrefuse.2] at hadmit
      · exact hother
    rw [refill_of_le (f := ⟨{ s with recycled := true }, false⟩) hlong']
    refine ⟨⟨.oldRecord, [], dropSize⟩, { s with recycled := true }, ?_, .inr rfl, hlong, hrec,
      .inr ⟨hlong', hnum⟩⟩
    simp [header, hnum]

end Reader

namespace FragmentBufferedReader

variable {C : Streaming} {opts : ReaderOptions} {overread : Reader C → Slice} {mode : RecoveryMode}
  {offset : ℕ} {l l' : FragmentBufferedReader C} {p : Physical}

/-- The `switch` reads nothing here either. -/
lemma readRecordSwitch_next (h : readRecordSwitch opts mode offset l p = .next l') :
    l'.reader.toRead = l.reader.toRead := by
  unfold readRecordSwitch at h
  cases hcode : p.code with
  | full => simp [hcode] at h
  | first =>
    simp only [hcode, next.injEq] at h
    subst h
    dsimp only
    split <;> simp [update]
  | middle =>
    simp only [hcode] at h
    split at h <;> cases h <;> simp [update]
  | last | badRecordChecksum =>
    simp only [hcode] at h
    split at h <;> cases h
    simp [update]
  | setCompression | predecessorWALInfo | userDefinedTimestampSize =>
    simp only [hcode, next.injEq] at h
    subst h
    simp [metadata, update, clear]
  | badHeader | badRecord | eof | oldRecord | badRecordLen =>
    simp only [hcode, next.injEq] at h
    subst h
    simp [update, clear]
  | unknown type =>
    simp only [hcode, next.injEq] at h
    subst h
    split <;> simp [update, clear]

lemma sticks_dropPartial (h : l.reader.Sticks opts) :
    (l.update (·.dropPartial)).reader.Sticks opts := by
  unfold update Scan.dropPartial
  dsimp only
  split
  · exact h
  · exact h

lemma round_sticks (overread : Reader C → Slice) (mode : RecoveryMode) (offset : ℕ)
    (h : l.reader.Sticks opts) :
    ∃ l', readRecordRound opts overread mode offset l = .next l' ∧ l'.reader.Sticks opts := by
  obtain ⟨p, s', hread, hcode, hstuck⟩ := Reader.tryReadFragment_sticks overread l.dropSize h
  refine ⟨update { l with reader := s', dropSize := p.dropSize }
    (·.dropPartial), ?_, sticks_dropPartial hstuck⟩
  unfold readRecordRound
  rw [hread]
  rcases hcode with hcode | hcode
  · simp [readRecordSwitch, hcode]
  · simp [readRecordSwitch, hcode]

/-- A call of `ReadRecord` of the tailing reader returns if and only if no round of it
sticks. -/
lemma exists_readRecord_iff (opts : ReaderOptions) (overread : Reader C → Slice)
    (mode : RecoveryMode) (l : FragmentBufferedReader C) :
    (∃ r l', ReadRecord opts overread mode l r l') ↔
      ∀ l', Loop.Reaches (readRecordRound opts overread mode l.physicalRecordOffset) l.start l' →
        ¬ l'.reader.Sticks opts := by
  refine Prod.exists.symm.trans (exists_returns_iff
    (fun l : FragmentBufferedReader C => l.reader.toRead) (fun l => l.reader.Sticks opts) ?_ ?_)
  · intro t u hfree hnext
    unfold readRecordRound at hnext
    split at hnext
    · cases hnext
    · rename_i p s' hread
      rw [readRecordSwitch_next hnext]
      exact (Reader.tryReadFragment_some hread).resolve_right hfree
  · intro t hstuck
    exact round_sticks overread mode _ hstuck

end FragmentBufferedReader

/-! ## Both readers -/

/-- **Termination.** From any state, on any bytes and in any mode, a call of `ReadRecord`
returns exactly when no round of it meets a record it leaves in place: one of the recyclable
format in a log that began with the short one, or, for the tailing reader, one of another
log. -/
theorem readRecord_returns_iff (C : Streaming) (opts : ReaderOptions) (mode : RecoveryMode) :
    (∀ s : Reader C, (∃ r s', Reader.ReadRecord opts mode s r s') ↔
      ∀ l, Loop.Reaches (Reader.readRecordRound opts mode) (Reader.startScan s) l →
        ¬ l.reader.Refuses) ∧ ∀ (overread : Reader C → Slice) (l : FragmentBufferedReader C),
      (∃ r l', FragmentBufferedReader.ReadRecord opts overread mode l r l') ↔
        ∀ l', Loop.Reaches (FragmentBufferedReader.readRecordRound opts overread mode
            l.physicalRecordOffset) l.start l' → ¬ l'.reader.Sticks opts :=
  ⟨fun s => Reader.exists_readRecord_iff opts mode s,
    fun overread l => FragmentBufferedReader.exists_readRecord_iff opts overread mode l⟩

/-- A record of the short format, then a header of the recyclable one. -/
def mixedFile : Slice :=
  (⟨.full, [1]⟩ : Fragment).encode .additive 0 ++ [0, 0, 0, 0, 0, 0, 5]

/-- The first call returns the record, the second one does not return. -/
theorem readRecord_hangs : ∃ s : Reader .copying,
    Reader.ReadRecord (Reader.plainOptions 0) .tolerateCorruptedTailRecords
      (Reader.openFile .copying mixedFile) (some [1]) s ∧
    ¬ ∃ r s', Reader.ReadRecord (Reader.plainOptions 0) .tolerateCorruptedTailRecords s r s' := by
  have hrun : (Reader.readRecord (Reader.plainOptions 0) .tolerateCorruptedTailRecords 1
      (Reader.openFile .copying mixedFile)).any (fun r =>
        decide (r.1 = some [1] ∧ (Reader.startScan r.2).reader.Refuses)) = true := by
    decide +kernel
  obtain ⟨⟨r, s⟩, hread, hr⟩ := (Option.any_eq_true _ _).1 hrun
  obtain ⟨rfl, hstuck⟩ := of_decide_eq_true hr
  refine ⟨s, Loop.returns_of_run hread, ?_⟩
  rw [Reader.exists_readRecord_iff]
  intro hfree
  exact hfree _ (.refl _) hstuck

end BucketLSM.Log
