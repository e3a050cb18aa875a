import BucketLSM.Log.Layout
import BucketLSM.Log.Reader

/-!
# Reading physical records

The invariant that ties the reader's buffer to the blocks of the file: before the end of the
file the buffer reaches exactly to the end of a block, and the last block is shorter. From it
follows what `ReadPhysicalRecord` returns on a record the writer wrote, on padding, and at
the end of the file.
-/

namespace BucketLSM.Log

open Lib Header Fragment LittleEndian List RecordType

/-! ## Headers -/

section Encoded

variable {crc : Crc32c} {logNumber : UInt64} {f : Fragment}

lemma Header.parse_encode (length_le : f.payload.length ≤ 0xffff) (rest : Slice) :
    Header.parse (f.encode crc logNumber ++ rest) = ⟨f.type.code, f.payload.length⟩ := by
  have hlen : f.payload.length % 256 + 256 * (f.payload.length / 256 % 256) = f.payload.length := by
    omega
  simp [Header.parse, Fragment.encode, LittleEndian.encode, LittleEndian.decode, hlen]

lemma Header.size_code (n : ℕ) : (⟨f.type.code, n⟩ : Header).size = f.type.headerSize := by
  unfold size recyclable RecordType.headerSize
  rw [isRecyclableType_code]
  cases f.type.isLegacy <;> rfl

lemma logNum_encode (recyclable : f.type.isLegacy = false) (rest : Slice) :
    logNum (f.encode crc logNumber ++ rest) = logNumber.toNat % 2 ^ 32 := by
  have h := LittleEndian.decode_encode 4 logNumber.toNat
  simp only [logNum, Fragment.encode, Fragment.logField, recyclable, LittleEndian.encode]
  simpa [LittleEndian.encode] using h

lemma Fragment.exists_header (f : Fragment) (crc : Crc32c) (logNumber : UInt64) :
    ∃ head, f.encode crc logNumber = head ++ f.payload ∧ head.length = f.type.headerSize := by
  have hlen : (f.encode crc logNumber).length = f.size := f.length_encode
  refine ⟨_, rfl, ?_⟩
  rw [encode, length_append, size] at hlen
  omega

/-- The bytes under the checksum: type, log number, payload. -/
def Fragment.summed (f : Fragment) (logNumber : UInt64) : Slice :=
  [f.type.code] ++ f.logField logNumber ++ f.payload

lemma Fragment.checksum_eq : f.checksum crc logNumber = mask (crc.value (f.summed logNumber)) := by
  unfold checksum summed logField
  cases f.type.isLegacy
  · simp only [Bool.false_eq_true, if_false, crc.extend_value, crc.combine_value]
  · simp only [if_true, crc.combine_value, append_nil]

lemma Fragment.encode_eq :
    f.encode crc logNumber = LittleEndian.encode 4 (f.checksum crc logNumber).toNat ++
      (LittleEndian.encode 2 f.payload.length ++ f.summed logNumber) := by
  simp [encode, summed]

lemma Fragment.length_summed :
    (f.summed logNumber).length = f.payload.length + f.type.headerSize - 6 := by
  unfold Fragment.summed Fragment.logField RecordType.headerSize
  cases f.type.isLegacy
  · simp [recyclableHeaderSize]
    omega
  · simp [headerSize]

lemma badChecksum_encode (opts : ReaderOptions) (rest : Slice) :
    Reader.badChecksum opts ⟨f.type.code, f.payload.length⟩
      (f.encode opts.crc logNumber ++ rest) = false := by
  have hstored : (f.encode opts.crc logNumber ++ rest).take 4 =
      encode 4 (f.checksum opts.crc logNumber).toNat := by
    rw [encode_eq, append_assoc, take_left' (length_encode _ _)]
  have hsummed : ((f.encode opts.crc logNumber ++ rest).drop 6).take
      (f.payload.length + f.type.headerSize - 6) = f.summed logNumber := by
    rw [encode_eq, ← append_assoc, append_assoc, drop_left' (by simp), take_left' length_summed]
  have hdecode : UInt32.ofNat (decode (encode 4 (f.checksum opts.crc logNumber).toNat)) =
      f.checksum opts.crc logNumber := by
    have hlt : (f.checksum opts.crc logNumber).toNat < 256 ^ 4 := UInt32.toNat_lt _
    rw [decode_encode, Nat.mod_eq_of_lt hlt, UInt32.ofNat_toNat]
  unfold Reader.badChecksum
  rw [size_code, hstored, hsummed, hdecode, checksum_eq, unmask_mask]
  simp

end Encoded

lemma Header.size_add_length (f : Fragment) :
    (⟨f.type.code, f.payload.length⟩ : Header).size + f.payload.length = f.size := by
  rw [Header.size_code, Fragment.size]

lemma RecordType.code_ne_zero {t : RecordType} (h : t ≠ .zero) : (t.code == zero.code) = false := by
  cases t <;> first | exact absurd rfl h | decide

/-! ## The place of the reader in the file -/

namespace Reader

variable {C : Streaming} {opts : ReaderOptions} {s s' s'' : Reader C} {rest : Slice} {off : ℕ}

/-- What is left to read is `rest`, from offset `off` of a block on. The reader is at work on
a file that can be read, and no stream is open. -/
structure Aligned (s : Reader C) (rest : Slice) (off : ℕ) : Prop where
  content : s.buffer ++ s.file.unread = rest
  noFaults : s.file.faults = []
  noError : s.readError = false
  noStream : s.uncompress = none
  place : s.eof = false ∧ off + s.buffer.length = blockSize ∨
    s.eof = true ∧ s.file.unread = [] ∧ off + s.buffer.length < blockSize

/-- The reader is at offset `off` of a block with `rest` to read, or it still has to skip a
rest of a block that is too short for a header. -/
def At (s : Reader C) (rest : Slice) (off : ℕ) : Prop :=
  Aligned s rest off ∨
    off = 0 ∧ ∃ pad off', pad.length < headerSize ∧ off' + pad.length = blockSize ∧
      Aligned s (pad ++ rest) off'

/-- `s'` is `s` further on in the file: what has been read so far is the same. -/
structure SameLog (s s' : Reader C) : Prop where
  first : s'.firstRecordRead = s.firstRecordRead
  recorded : s'.recordedCfToTsSz = s.recordedCfToTsSz
  reports : s'.reports = s.reports

lemma SameLog.trans (h : SameLog s s') (h' : SameLog s' s'') : SameLog s s'' :=
  ⟨h'.first.trans h.first, h'.recorded.trans h.recorded, h'.reports.trans h.reports⟩

/-- Bytes that do not cross the block are in the buffer. -/
lemma Aligned.buffer_eq {front : Slice} (h : Aligned s (front ++ rest) off)
    (fits : off + front.length ≤ blockSize) :
    ∃ back, s.buffer = front ++ back ∧ back ++ s.file.unread = rest := by
  have hlen : front.length ≤ s.buffer.length := by
    rcases h.place with ⟨-, hfull⟩ | ⟨-, hnil, -⟩
    · omega
    · have hcontent := congrArg List.length h.content
      simp only [hnil, List.append_nil, List.length_append] at hcontent
      omega
  rcases List.append_eq_append_iff.1 h.content with ⟨back, hfront, hback⟩ | ⟨back, hbuf, hback⟩
  · have hnil : back = [] := by
      have := congrArg List.length hfront
      simp only [List.length_append] at this
      exact eq_nil_of_length_eq_zero (by omega)
    subst hnil
    exact ⟨[], by simpa using hfront.symm, by simpa using hback⟩
  · exact ⟨back, hbuf, hback.symm⟩

variable {back : Slice} {f : Fragment} {logNumber : UInt64} {n : ℕ}

lemma Aligned.drop {front : Slice} (h : Aligned s (front ++ rest) off)
    (hbuf : s.buffer = front ++ back) (hs : s'.buffer = back) (hfile : s'.file = s.file)
    (heof : s'.eof = s.eof) (herror : s'.readError = s.readError)
    (hstream : s'.uncompress = s.uncompress) : Aligned s' rest (off + front.length) := by
  have hcontent : back ++ s.file.unread = rest := by
    have := h.content
    rw [hbuf, append_assoc] at this
    exact append_cancel_left this
  refine ⟨by rw [hs, hfile, hcontent], by rw [hfile, h.noFaults], by rw [herror, h.noError],
    by rw [hstream, h.noStream], ?_⟩
  have hplace := h.place
  rw [hbuf, length_append] at hplace
  rw [heof, hfile, hs, Nat.add_assoc]
  exact hplace

lemma Aligned.readMore {pad : Slice} (h : Aligned s (pad ++ rest) off)
    (hoff : off + pad.length = blockSize) :
    ∃ s', s.readMore = (none, s') ∧ Aligned s' rest 0 ∧ SameLog s s' ∧
      s'.recycled = s.recycled := by
  obtain ⟨back, hbuf, hback⟩ := h.buffer_eq (by omega)
  have heof : s.eof = false := by
    rcases h.place with ⟨heof, -⟩ | ⟨-, -, hlt⟩
    · exact heof
    · rw [hbuf, length_append] at hlt
      omega
  have hnil : back = [] := by
    rcases h.place with ⟨-, hfull⟩ | ⟨htrue, -, -⟩
    · rw [hbuf, length_append] at hfull
      exact eq_nil_of_length_eq_zero (by omega)
    · exact absurd (heof.symm.trans htrue) (by simp)
  have hunread : s.file.unread = rest := by simpa [hnil] using hback
  have hread : s.file.read blockSize = (true, rest.take blockSize, ⟨rest.drop blockSize, []⟩) := by
    simp [SequentialFile.read, h.noFaults, hunread]
  unfold Reader.readMore
  simp only [heof, h.noError, hread, Bool.not_false, Bool.and_self, if_true, Bool.not_true,
    Bool.false_eq_true, if_false]
  split
  · rename_i hshort
    refine ⟨_, rfl, ⟨take_append_drop _ _, rfl, rfl, h.noStream, .inr ⟨rfl, ?_, ?_⟩⟩,
      ⟨rfl, rfl, rfl⟩, rfl⟩
    · rw [length_take] at hshort
      exact drop_eq_nil_iff.2 (by omega)
    · simpa using hshort
  · rename_i hlong
    refine ⟨_, rfl, ⟨take_append_drop _ _, rfl, rfl, h.noStream, .inl ⟨rfl, ?_⟩⟩,
      ⟨rfl, rfl, rfl⟩, rfl⟩
    rw [length_take] at hlong ⊢
    omega

lemma Aligned.at (h : Aligned s rest off) : At s rest off := .inl h

lemma SameLog.refl (s : Reader C) : SameLog s s := ⟨rfl, rfl, rfl⟩

lemma at_openFile (C : Streaming) (bytes : Slice) : At (openFile C bytes) bytes 0 :=
  .inr ⟨rfl, [], blockSize, by decide, rfl, rfl, rfl, rfl, rfl, .inl ⟨rfl, rfl⟩⟩

/-! ## Physical records -/

lemma readPhysicalRecord_leave {r : Physical × Reader C} (h : physicalRound opts s = .leave r) :
    readPhysicalRecord opts s = some r := by
  simp [readPhysicalRecord, Loop.run, h]

/-- A short rest of a block is skipped before the record behind it is read. -/
lemma At.exists_read (opts : ReaderOptions) {P : Physical × Reader C → Prop} (h : At s rest off)
    (round : ∀ s₁, Aligned s₁ rest off → SameLog s s₁ → s₁.recycled = s.recycled →
      ∃ r, physicalRound opts s₁ = .leave r ∧ P r) :
    ∃ r, readPhysicalRecord opts s = some r ∧ P r := by
  rcases h with h | ⟨rfl, pad, off', hpad, hoff, h⟩
  · obtain ⟨r, hr, hp⟩ := round s h (.refl s) rfl
    exact ⟨r, readPhysicalRecord_leave hr, hp⟩
  · obtain ⟨s₁, hmore, h₁, hsame, hrec⟩ := h.readMore hoff
    obtain ⟨r, hr, hp⟩ := round s₁ h₁ hsame hrec
    have hbuf : s.buffer.length < headerSize := by
      obtain ⟨back, hback, -⟩ := h.buffer_eq (by omega)
      rcases h.place with ⟨-, hfull⟩ | ⟨-, -, hlt⟩
      · omega
      · rw [hback, length_append] at hlt
        omega
    have hnext : physicalRound opts s = .next s₁ := by
      simp [physicalRound, hbuf, moreRound, hmore]
    exact ⟨r, by simp [readPhysicalRecord, Loop.run, hnext, hr], hp⟩

/-- A record of the log is let in: the log did not begin with records of the short format. -/
def Admits (s : Reader C) (f : Fragment) : Prop :=
  f.type.isLegacy = false → s.firstRecordRead = true → s.recycled = true

/-- Up to the checks, a written record in the buffer is taken for what it is. -/
lemma physicalRound_encode (length_le : f.payload.length ≤ 0xffff)
    (hbuf : s.buffer = f.encode opts.crc logNumber ++ back) (admits : Admits s f) :
    physicalRound opts s = .leave (checkRecord opts
      { s with recycled := s.recycled || !f.type.isLegacy } ⟨f.type.code, f.payload.length⟩) := by
  have hlen : f.size ≤ s.buffer.length := by
    rw [hbuf, List.length_append, Fragment.length_encode]
    omega
  have hlong : ¬ s.buffer.length < headerSize := by
    have := f.size_pos
    simp only [headerSize]
    omega
  have hparse : parse s.buffer = ⟨f.type.code, f.payload.length⟩ := by
    rw [hbuf, parse_encode length_le]
  unfold physicalRound
  rw [if_neg hlong, hparse]
  simp only [recyclable, isRecyclableType_code]
  cases hleg : f.type.isLegacy with
  | true => simp
  | false =>
    have hgate : (s.firstRecordRead && !s.recycled) = false := by
      have := admits hleg
      cases hf : s.firstRecordRead <;> simp_all
    have hroom : ¬ s.buffer.length < recyclableHeaderSize := by
      unfold Fragment.size RecordType.headerSize at hlen
      rw [hleg] at hlen
      simp only [Bool.false_eq_true, if_false] at hlen
      omega
    simp [hgate, hroom]

lemma deliver_encode (hbuf : s.buffer = f.encode opts.crc logNumber ++ back)
    (hstream : s.uncompress = none) : s.deliver ⟨f.type.code, f.payload.length⟩ s.buffer =
      (⟨Code.ofByte f.type.code, f.payload, 0⟩, { s with buffer := back }) := by
  have hdrop : s.buffer.drop f.size = back := by
    rw [hbuf, drop_left' f.length_encode]
  have hpayload : (s.buffer.drop (⟨f.type.code, f.payload.length⟩ : Header).size).take
      f.payload.length = f.payload := by
    obtain ⟨head, henc, hhead⟩ := f.exists_header opts.crc logNumber
    rw [hbuf, henc, size_code, append_assoc, drop_left' hhead, take_left]
  unfold deliver
  dsimp only
  rw [size_add_length, hdrop, hpayload, hstream]

lemma checkRecord_encode (hbuf : s.buffer = f.encode opts.crc opts.logNumber ++ back)
    (hstream : s.uncompress = none)
    (number : f.type.isLegacy = false → opts.logNumber.toNat < 2 ^ 32) (type_ne : f.type ≠ .zero) :
    checkRecord opts s ⟨f.type.code, f.payload.length⟩ =
      (⟨Code.ofByte f.type.code, f.payload, 0⟩, { s with buffer := back }) := by
  have hlen : ¬ s.buffer.length < f.size := by
    rw [hbuf, List.length_append, Fragment.length_encode]
    omega
  have hnumber : ((⟨f.type.code, f.payload.length⟩ : Header).recyclable &&
      logNum s.buffer != opts.logNumber.toNat) = false := by
    cases hleg : f.type.isLegacy with
    | true => simp [recyclable, hleg]
    | false =>
      rw [hbuf, logNum_encode hleg, Nat.mod_eq_of_lt (number hleg)]
      simp
  have hsum : badChecksum opts ⟨f.type.code, f.payload.length⟩ s.buffer = false := by
    rw [hbuf, badChecksum_encode]
  unfold checkRecord
  dsimp only
  rw [size_add_length, if_neg hlen, hnumber, code_ne_zero type_ne, hsum,
    deliver_encode hbuf hstream]
  simp

/-- A record of the recyclable format with another log number is old. -/
lemma checkRecord_old (hbuf : s.buffer = f.encode opts.crc logNumber ++ back)
    (recyclable : f.type.isLegacy = false)
    (number : logNumber.toNat % 2 ^ 32 ≠ opts.logNumber.toNat) :
    checkRecord opts s ⟨f.type.code, f.payload.length⟩ =
      (⟨.oldRecord, [], 0⟩, { s with buffer := back }) := by
  have hlen : ¬ s.buffer.length < f.size := by
    rw [hbuf, List.length_append, Fragment.length_encode]
    omega
  have hnumber : ((⟨f.type.code, f.payload.length⟩ : Header).recyclable &&
      logNum s.buffer != opts.logNumber.toNat) = true := by
    rw [hbuf, logNum_encode recyclable]
    simpa [Header.recyclable, recyclable] using number
  have hdrop : s.buffer.drop f.size = back := by
    rw [hbuf, drop_left' f.length_encode]
  unfold checkRecord
  dsimp only
  rw [size_add_length, if_neg hlen, hnumber, hdrop]
  simp

/-- A written record is read, whatever the checks then say of it. -/
lemma At.exists_read_encode {p : Physical} (h : At s (f.encode opts.crc logNumber ++ rest) off)
    (length_le : f.payload.length ≤ 0xffff) (fits : off + f.size ≤ blockSize) (admits : Admits s f)
    (check : ∀ (s₁ : Reader C) (back : Slice), s₁.uncompress = none →
      s₁.buffer = f.encode opts.crc logNumber ++ back →
      checkRecord opts s₁ ⟨f.type.code, f.payload.length⟩ = (p, { s₁ with buffer := back })) :
    ∃ s', readPhysicalRecord opts s = some (p, s') ∧ Aligned s' rest (off + f.size) ∧
      SameLog s s' ∧ s'.recycled = (s.recycled || !f.type.isLegacy) := by
  obtain ⟨⟨p', s'⟩, hread, hp, hs'⟩ := h.exists_read opts
    (P := fun r => r.1 = p ∧ Aligned r.2 rest (off + f.size) ∧ SameLog s r.2 ∧
      r.2.recycled = (s.recycled || !f.type.isLegacy)) (by
    intro s₁ h₁ hsame hrec
    obtain ⟨back, hbuf, -⟩ := h₁.buffer_eq (by rwa [Fragment.length_encode])
    have hadmits : Admits s₁ f := by
      intro hleg hfirst
      rw [hrec]
      exact admits hleg (hsame.first ▸ hfirst)
    have hcheck := check { s₁ with recycled := s₁.recycled || !f.type.isLegacy } back
      h₁.noStream hbuf
    refine ⟨_, physicalRound_encode length_le hbuf hadmits, ?_⟩
    rw [hcheck]
    refine ⟨rfl, ?_, ⟨hsame.first, hsame.recorded, hsame.reports⟩, by rw [← hrec]⟩
    rw [← f.length_encode]
    exact h₁.drop hbuf rfl rfl rfl rfl rfl)
  subst hp
  exact ⟨s', hread, hs'⟩

lemma At.fragment (h : At s (f.encode opts.crc opts.logNumber ++ rest) off)
    (length_le : f.payload.length ≤ 0xffff) (fits : off + f.size ≤ blockSize) (admits : Admits s f)
    (number : f.type.isLegacy = false → opts.logNumber.toNat < 2 ^ 32) (type_ne : f.type ≠ .zero) :
    ∃ s', readPhysicalRecord opts s = some (⟨Code.ofByte f.type.code, f.payload, 0⟩, s') ∧
      Aligned s' rest (off + f.size) ∧ SameLog s s' ∧
      s'.recycled = (s.recycled || !f.type.isLegacy) :=
  h.exists_read_encode length_le fits admits fun _ _ hstream hbuf =>
    checkRecord_encode hbuf hstream number type_ne

/-- `ReadPhysicalRecord` on a record of another log, or of this one when its number does not
fit the header. -/
lemma At.oldFragment (h : At s (f.encode opts.crc logNumber ++ rest) off)
    (length_le : f.payload.length ≤ 0xffff) (fits : off + f.size ≤ blockSize) (admits : Admits s f)
    (recyclable : f.type.isLegacy = false)
    (number : logNumber.toNat % 2 ^ 32 ≠ opts.logNumber.toNat) :
    ∃ s', readPhysicalRecord opts s = some (⟨.oldRecord, [], 0⟩, s') ∧
      Aligned s' rest (off + f.size) ∧ SameLog s s' ∧
      s'.recycled = (s.recycled || !f.type.isLegacy) :=
  h.exists_read_encode length_le fits admits fun _ _ _ hbuf =>
    checkRecord_old hbuf recyclable number

/-! ## Padding and the end of the file -/

lemma parse_take (buffer : Slice) {m : ℕ} (h : 7 ≤ m) : parse (buffer.take m) = parse buffer := by
  have htype : (buffer.take m).getD 6 0 = buffer.getD 6 0 := by
    simp [getD_eq_getElem?_getD, show 6 < m by omega]
  have hlength : ((buffer.take m).drop 4).take 2 = (buffer.drop 4).take 2 := by
    rw [drop_take, take_take, Nat.min_eq_left (by omega)]
  simp only [parse, htype, hlength]

lemma logNum_take (buffer : Slice) {m : ℕ} (h : 11 ≤ m) :
    logNum (buffer.take m) = logNum buffer := by
  rw [logNum, logNum, drop_take, take_take, Nat.min_eq_left (by omega)]

lemma parse_zeros (h : 7 ≤ n) : parse (replicate n 0) = ⟨0, 0⟩ := by
  obtain ⟨k, rfl⟩ := Nat.exists_eq_add_of_le h
  simp [parse, replicate_add, decode]

/-- Padding that is long enough for a header is taken for a bad record, and skipped to the
end of the buffer. -/
lemma physicalRound_zeros (h : 7 ≤ n) (hbuf : s.buffer = replicate n 0) :
    physicalRound opts s = .leave (⟨.badRecord, [], 0⟩, { s with buffer := [] }) := by
  have hlen : s.buffer.length = n := by rw [hbuf, length_replicate]
  have hlong : ¬ s.buffer.length < headerSize := by
    simp only [headerSize]
    omega
  have hplain : (⟨0, 0⟩ : Header).recyclable = false := by decide
  have hsize : ¬ s.buffer.length < (⟨0, 0⟩ : Header).size + 0 := by
    have : (⟨0, 0⟩ : Header).size = 7 := by decide
    omega
  unfold physicalRound
  rw [if_neg hlong]
  dsimp only
  rw [hbuf, parse_zeros h, hplain, ← hbuf]
  unfold checkRecord
  rw [hplain]
  simpa [code] using hsize

/-- The padding of a block is skipped with one bad record, or unseen. -/
lemma At.padding (opts : ReaderOptions) (h : At s (replicate n 0 ++ rest) off)
    (hoff : off + n = blockSize) :
    At s rest 0 ∨ 7 ≤ n ∧ ∃ s', readPhysicalRecord opts s = some (⟨.badRecord, [], 0⟩, s') ∧
      At s' rest 0 ∧ SameLog s s' ∧ s'.recycled = s.recycled := by
  by_cases hn : 7 ≤ n
  · obtain ⟨⟨p, s'⟩, hread, hp, hs'⟩ := h.exists_read opts
      (P := fun r => r.1 = ⟨.badRecord, [], 0⟩ ∧ At r.2 rest 0 ∧ SameLog s r.2 ∧
        r.2.recycled = s.recycled) (by
      intro s₁ h₁ hsame hrec
      have hlen : (replicate n (0 : Byte)).length = n := length_replicate
      obtain ⟨back, hbuf, -⟩ := h₁.buffer_eq (by rw [hlen]; omega)
      have hnil : back = [] := by
        rcases h₁.place with ⟨-, hfull⟩ | ⟨-, -, hlt⟩
        · rw [hbuf, length_append, hlen] at hfull
          exact eq_nil_of_length_eq_zero (by omega)
        · rw [hbuf, length_append, hlen] at hlt
          omega
      subst hnil
      refine ⟨_, physicalRound_zeros hn (by simpa using hbuf), rfl, ?_,
        ⟨hsame.first, hsame.recorded, hsame.reports⟩, hrec⟩
      refine .inr ⟨rfl, [], off + n, by decide, by simpa using hoff, ?_⟩
      rw [← hlen]
      exact h₁.drop hbuf rfl rfl rfl rfl rfl)
    subst hp
    exact .inr ⟨hn, s', hread, hs'⟩
  · left
    rcases h with h | ⟨rfl, -⟩
    · refine .inr ⟨rfl, replicate n 0, off, ?_, by simpa using hoff, h⟩
      simp only [length_replicate, headerSize]
      omega
    · simp only [blockSize] at hoff
      omega

lemma physicalRound_eof (h : Aligned s [] off) (heof : s.eof = true) :
    physicalRound opts s = .leave (⟨.eof, [], 0⟩, { s with buffer := [] }) := by
  have hbuf : s.buffer = [] := (append_eq_nil_iff.1 h.content).1
  have hmore : s.readMore = (some (.eof, 0), { s with buffer := [] }) := by
    simp [readMore, heof, hbuf]
  simp [physicalRound, hbuf, headerSize, moreRound, hmore]

/-- At the end of the file. It may only be noticed by one more read, which returns nothing. -/
lemma At.eof (opts : ReaderOptions) (h : At s [] off) :
    ∃ s', readPhysicalRecord opts s = some (⟨.eof, [], 0⟩, s') ∧ SameLog s s' ∧
      s'.recycled = s.recycled := by
  have hskip (h : At s [] 0) : ∃ s', readPhysicalRecord opts s = some (⟨.eof, [], 0⟩, s') ∧
      SameLog s s' ∧ s'.recycled = s.recycled := by
    obtain ⟨⟨p, s'⟩, hread, hp, hs'⟩ := h.exists_read opts
      (P := fun r => r.1 = ⟨.eof, [], 0⟩ ∧ SameLog s r.2 ∧ r.2.recycled = s.recycled) (by
      intro s₁ h₁ hsame hrec
      have hbuf : s₁.buffer = [] := (append_eq_nil_iff.1 h₁.content).1
      have heof : s₁.eof = true := by
        rcases h₁.place with ⟨-, hfull⟩ | ⟨heof, -⟩
        · simp [hbuf, blockSize] at hfull
        · exact heof
      exact ⟨_, physicalRound_eof h₁ heof, rfl, ⟨hsame.first, hsame.recorded, hsame.reports⟩, hrec⟩)
    subst hp
    exact ⟨s', hread, hs'⟩
  rcases h with h | ⟨rfl, hpad⟩
  · rcases h.place with ⟨-, hfull⟩ | ⟨heof, -⟩
    · have hbuf : s.buffer = [] := (append_eq_nil_iff.1 h.content).1
      exact hskip (.inr ⟨rfl, [], off, by decide, by simpa [hbuf] using hfull, h⟩)
    · exact ⟨_, readPhysicalRecord_leave (physicalRound_eof h heof), ⟨rfl, rfl, rfl⟩, rfl⟩
  · exact hskip (.inr ⟨rfl, hpad⟩)

end Reader

end BucketLSM.Log
