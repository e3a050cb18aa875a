import BucketLSM.Log.RoundTrip
import BucketLSM.Log.Termination

/-!
# Recycled log files

A new log is written over the file of an old one. Behind the end of the new log the reader
finds itself at any place of the old one: in the middle of a physical record, in padding, or
at the start of a block. Under an ideal checksum what passes there is a record that the old
log wrote at that place, and its log number gives it away.
-/

namespace BucketLSM.Log

open Lib List Header Scan Writer

/-! ## Old records and their places -/

/-- The physical records among the items, with the places they begin at. -/
def placed : ℕ → List Item → List (ℕ × Fragment)
  | _, [] => []
  | p, .fragment f :: items => (p, f) :: placed (p + f.size) items
  | p, .padding n :: items => placed (p + n) items

variable {items : List Item} {off' : ℕ}

lemma exists_of_mem_placed (crc : Crc32c) (logNumber : UInt64) {start p : ℕ} {f : Fragment}
    (h : (p, f) ∈ placed start items) : start ≤ p ∧ .fragment f ∈ items ∧
      f.encode crc logNumber <+: (itemBytes crc logNumber items).drop (p - start) := by
  induction items generalizing start with
  | nil => simp [placed] at h
  | cons item items ih =>
    cases item with
    | fragment g =>
      rcases mem_cons.1 h with heq | h
      · cases heq
        exact ⟨le_rfl, mem_cons_self, by simp [Item.bytes]⟩
      · obtain ⟨hle, hmem, hpre⟩ := ih h
        refine ⟨by omega, mem_cons_of_mem _ hmem, ?_⟩
        have hdrop : p - start = (g.encode crc logNumber).length + (p - (start + g.size)) := by
          rw [g.length_encode]
          omega
        rwa [itemBytes_cons, Item.bytes, hdrop, drop_append, drop_eq_nil_of_le (by omega),
          nil_append, Nat.add_sub_cancel_left]
    | padding n =>
      obtain ⟨hle, hmem, hpre⟩ := ih h
      refine ⟨by omega, mem_cons_of_mem _ hmem, ?_⟩
      have hdrop : p - start = (replicate n (0 : Byte)).length + (p - (start + n)) := by
        rw [length_replicate]
        omega
      rwa [itemBytes_cons, Item.bytes, hdrop, drop_append, drop_eq_nil_of_le (by omega),
        nil_append, Nat.add_sub_cancel_left]

lemma Layout.length_mod (crc : Crc32c) (logNumber : UInt64) {off : ℕ} (h : Layout off items off')
    : (off + (itemBytes crc logNumber items).length) % blockSize = off' % blockSize := by
  induction h with
  | nil off => simp
  | @fragment off off' f items _ _ _ ih =>
    rw [itemBytes_cons, length_append, Item.bytes, f.length_encode, ← ih, Nat.add_assoc]
  | @padding off off' items le _ ih =>
    rw [itemBytes_cons, length_append, Item.bytes, length_replicate, ← ih]
    simp only [blockSize] at le ⊢
    omega

lemma Layout.length_le {off : ℕ} {f : Fragment} (h : Layout off items off')
    (hf : .fragment f ∈ items) : f.payload.length ≤ 0xffff := by
  induction h with
  | nil off => simp at hf
  | fragment length_le _ _ ih =>
    rcases mem_cons.1 hf with heq | hf
    · cases heq
      exact length_le
    · exact ih hf
  | padding _ _ ih => exact ih (by simpa using hf)

/-- `new` written over the front of `old`. -/
def overwrite (new old : Slice) : Slice := new ++ old.drop new.length

/-- What is in the buffer when the reader is at byte `p`: the file up to the end of the block. -/
def inBlock (file : Slice) (p : ℕ) : Slice := (file.drop p).take (blockSize - p % blockSize)

/-- A buffer whose front passes as a physical record: a header that is not a gap, with its
payload and a checksum that agrees. -/
def Passes (opts : ReaderOptions) (buffer : Slice) : Prop :=
  headerSize ≤ buffer.length ∧ Header.parse buffer ≠ ⟨0, 0⟩ ∧
    (Header.parse buffer).size + (Header.parse buffer).length ≤ buffer.length ∧
    Reader.badChecksum opts (Header.parse buffer) buffer = false

instance (opts : ReaderOptions) (buffer : Slice) : Decidable (Passes opts buffer) :=
  inferInstanceAs (Decidable (_ ∧ _ ∧ _ ∧ _))

/-- The checksum is ideal from byte `start` of the file on: what passes as a physical record
was written there as one. -/
def IdealChecksum (opts : ReaderOptions) (file : Slice) (start : ℕ)
    (written : List (ℕ × Fragment)) : Prop :=
  ∀ p, start ≤ p → Passes opts (inBlock file p) → ∃ f, (p, f) ∈ written

/-- Behind the end of the file there is nothing to check. -/
lemma idealChecksum_of_lt {opts : ReaderOptions} {file : Slice} {start : ℕ}
    {written : List (ℕ × Fragment)}
    (h : ∀ p < file.length, start ≤ p → Passes opts (inBlock file p) → p ∈ written.map Prod.fst) :
    IdealChecksum opts file start written := by
  intro p hp hpass
  have hlt : p < file.length := by
    by_contra hge
    have long := hpass.1
    rw [inBlock, drop_eq_nil_of_le (by omega)] at long
    simp [headerSize] at long
  obtain ⟨⟨_, f⟩, hf, rfl⟩ := mem_map.1 (h p hlt hp hpass)
  exact ⟨f, hf⟩

/-- From byte `start` on, what passes as a physical record is one of another log, or it begins
compression and has no log number. -/
def OldFrom (opts : ReaderOptions) (file : Slice) (start : ℕ) : Prop :=
  ∀ p, start ≤ p → Passes opts (inBlock file p) →
    if (Header.parse (inBlock file p)).recyclable then
      logNum (inBlock file p) ≠ opts.logNumber.toNat
    else (Header.parse (inBlock file p)).type = RecordType.setCompression.code

/-- Under an ideal checksum the rest of an old log is old. -/
lemma oldFrom_overwrite {opts : ReaderOptions} {oldNumber : UInt64} {new : Slice}
    (layout : Layout 0 items off')
    (recyclable : ∀ f, .fragment f ∈ items → f.type.isLegacy = false ∨ f.type = .setCompression)
    (small : oldNumber.toNat < 2 ^ 32) (ne : oldNumber ≠ opts.logNumber)
    (ideal : IdealChecksum opts (overwrite new (itemBytes opts.crc oldNumber items)) new.length
      (placed 0 items)) :
    OldFrom opts (overwrite new (itemBytes opts.crc oldNumber items)) new.length := by
  intro p hp hpass
  obtain ⟨f, hf⟩ := ideal p hp hpass
  obtain ⟨long, -, fits, -⟩ := hpass
  obtain ⟨-, hmem, post, hpost⟩ := exists_of_mem_placed opts.crc oldNumber hf
  have hfile : (overwrite new (itemBytes opts.crc oldNumber items)).drop p =
      f.encode opts.crc oldNumber ++ post := by
    rw [hpost, overwrite, drop_append, drop_eq_nil_of_le hp, nil_append, drop_drop, Nat.sub_zero]
    congr 1
    omega
  have hroom : (inBlock (overwrite new (itemBytes opts.crc oldNumber items)) p).length ≤
      blockSize - p % blockSize := length_take_le _ _
  have hparse : parse (inBlock (overwrite new (itemBytes opts.crc oldNumber items)) p) =
      ⟨f.type.code, f.payload.length⟩ := by
    simp only [headerSize] at long
    rw [inBlock, Reader.parse_take _ (by omega), hfile, parse_encode (layout.length_le hmem)]
  rw [hparse] at fits ⊢
  rcases recyclable f hmem with hrec | htype
  · have hheader : (⟨f.type.code, f.payload.length⟩ : Header).recyclable = true := by
      simp [Header.recyclable, hrec]
    have hlong : 11 ≤ blockSize - p % blockSize := by
      simp only [Header.size, hheader, if_true, recyclableHeaderSize] at fits
      omega
    rw [if_pos hheader, inBlock, Reader.logNum_take _ hlong, hfile, logNum_encode hrec,
      Nat.mod_eq_of_lt small]
    intro heq
    exact ne (UInt64.toNat_inj.1 heq)
  · have hheader : (⟨f.type.code, f.payload.length⟩ : Header).recyclable = false := by
      simp [Header.recyclable, htype, RecordType.isLegacy]
    rw [if_neg (by simp [hheader]), htype]

namespace Reader

variable {C : Streaming} {opts : ReaderOptions} {s s' : Reader C} {file : Slice} {p : ℕ}

/-! ## Reading on from any place -/

/-- The buffer holds the file from byte `p` to the end of the block. -/
structure Holds (s : Reader C) (file : Slice) (p : ℕ) : Prop where
  content : s.buffer ++ s.file.unread = file.drop p
  fits : s.buffer.length ≤ blockSize - p % blockSize
  place : s.eof = true ∧ s.file.unread = [] ∨
    s.eof = false ∧ s.buffer.length = blockSize - p % blockSize

/-- The reader is at byte `p` of the file, at the latest once it has skipped a rest of a block
that is too short for a header. -/
structure StandsAt (s : Reader C) (file : Slice) (p : ℕ) : Prop where
  noFaults : s.file.faults = []
  noError : s.readError = false
  place : Holds s file p ∨ s.eof = false ∧ s.buffer.length < headerSize ∧
    s.file.unread = file.drop p ∧ p % blockSize = 0

lemma Holds.inBlock_eq (h : Holds s file p) : inBlock file p = s.buffer := by
  unfold inBlock
  rw [← h.content]
  rcases h.place with ⟨-, hnil⟩ | ⟨-, hlen⟩
  · rw [hnil, append_nil, take_of_length_le h.fits]
  · rw [take_left' hlen]

/-- A reader with a header in its buffer. -/
lemma StandsAt.holds (h : StandsAt s file p) (long : headerSize ≤ s.buffer.length) :
    Holds s file p := by
  rcases h.place with hholds | ⟨-, hshort, -⟩
  · exact hholds
  · omega

lemma StandsAt.drop (h : StandsAt s file p) (hholds : Holds s file p) {k : ℕ}
    (le : k ≤ s.buffer.length) (hs : s'.buffer = s.buffer.drop k) (hfile : s'.file = s.file)
    (heof : s'.eof = s.eof) (herror : s'.readError = s.readError) : StandsAt s' file (p + k) := by
  have hcontent : s'.buffer ++ s'.file.unread = file.drop (p + k) := by
    rw [hs, hfile, ← drop_append_of_le_length le, hholds.content, drop_drop]
  have hfits := hholds.fits
  have hlen : s'.buffer.length = s.buffer.length - k := by rw [hs, length_drop]
  refine ⟨by rw [hfile, h.noFaults], by rw [herror, h.noError], ?_⟩
  have hmod := Nat.mod_lt p (show 0 < blockSize by decide)
  rcases hholds.place with ⟨htrue, hnil⟩ | ⟨hfalse, hfull⟩
  · left
    refine ⟨hcontent, ?_, .inl ⟨by rw [heof, htrue], by rw [hfile, hnil]⟩⟩
    simp only [blockSize] at *
    omega
  · by_cases hall : k = s.buffer.length
    · right
      have hnil : s'.buffer = [] := eq_nil_of_length_eq_zero (by omega)
      refine ⟨by rw [heof, hfalse], by simp [hnil, headerSize], by simpa [hnil] using hcontent, ?_⟩
      simp only [blockSize] at *
      omega
    · left
      refine ⟨hcontent, ?_, .inr ⟨by rw [heof, hfalse], ?_⟩⟩ <;>
      · simp only [blockSize] at *
        omega

/-- The next block is read, or the end of the file is met. -/
lemma StandsAt.moreRound (h : StandsAt s file p) :
    (∃ s' p', Reader.moreRound s = .next s' ∧ p ≤ p' ∧ StandsAt s' file p' ∧
      s'.firstRecordRead = s.firstRecordRead ∧ s'.recycled = s.recycled) ∨
    ∃ r s' p', Reader.moreRound s = .leave (r, s') ∧ p ≤ p' ∧ StandsAt s' file p' ∧
      (r.code = .eof ∨ r.code = .badHeader) ∧
      s'.firstRecordRead = s.firstRecordRead ∧ s'.recycled = s.recycled := by
  cases heof : s.eof with
  | true =>
    right
    have hholds : Holds s file p := by
      rcases h.place with hholds | ⟨hfalse, -⟩
      · exact hholds
      · exact absurd (heof.symm.trans hfalse) (by simp)
    have hclear : StandsAt { s with buffer := [] } file (p + s.buffer.length) :=
      h.drop hholds le_rfl (by simp) rfl rfl rfl
    by_cases hbuf : s.buffer.length = 0
    · exact ⟨⟨.eof, [], 0⟩, _, _, by simp [Reader.moreRound, readMore, heof, hbuf],
        Nat.le_add_right _ _, hclear, .inl rfl, rfl, rfl⟩
    · exact ⟨⟨.badHeader, [], s.buffer.length⟩, _, _,
        by simp [Reader.moreRound, readMore, heof, hbuf], Nat.le_add_right _ _, hclear,
        .inr rfl, rfl, rfl⟩
  | false =>
    left
    obtain ⟨p', hle, hunread, hmod⟩ : ∃ p', p ≤ p' ∧ s.file.unread = file.drop p' ∧
        p' % blockSize = 0 := by
      rcases h.place with hholds | ⟨-, -, hunread, hmod⟩
      · have hfull : s.buffer.length = blockSize - p % blockSize := by
          rcases hholds.place with ⟨htrue, -⟩ | ⟨-, hfull⟩
          · exact absurd (heof.symm.trans htrue) (by simp)
          · exact hfull
        refine ⟨p + s.buffer.length, Nat.le_add_right _ _, ?_, ?_⟩
        · rw [← drop_drop, ← hholds.content, drop_left]
        · have := Nat.mod_lt p (show 0 < blockSize by decide)
          simp only [blockSize] at *
          omega
      · exact ⟨p, le_rfl, hunread, hmod⟩
    have hread : s.file.read blockSize =
        (true, (file.drop p').take blockSize, ⟨(file.drop p').drop blockSize, []⟩) := by
      simp [SequentialFile.read, h.noFaults, hunread]
    unfold Reader.moreRound readMore
    simp only [heof, h.noError, hread, Bool.not_false, Bool.and_self, if_true, Bool.not_true,
      Bool.false_eq_true, if_false]
    split
    · rename_i s₁ hmore
      split at hmore
      · rename_i hshort
        cases hmore
        refine ⟨_, p', rfl, hle, ⟨rfl, rfl, .inl ⟨take_append_drop _ _, ?_,
          .inl ⟨rfl, ?_⟩⟩⟩, rfl, rfl⟩
        · rw [hmod]
          exact hshort.le
        · rw [length_take] at hshort
          exact drop_eq_nil_iff.2 (by omega)
      · rename_i hlong
        cases hmore
        have hfull : ((file.drop p').take blockSize).length = blockSize - p' % blockSize := by
          rw [length_take] at hlong ⊢
          omega
        exact ⟨_, p', rfl, hle, ⟨rfl, rfl, .inl ⟨take_append_drop _ _, hfull.le,
          .inr ⟨rfl, hfull⟩⟩⟩, rfl, rfl⟩
    · rename_i hmore
      split at hmore <;> cases hmore

/-! ## Nothing is read behind the new log -/

/-- The codes after which `ReadRecord` goes on or returns false, outside a record. -/
def yieldsNothing : Code → Bool
  | .eof | .badHeader | .oldRecord | .badRecord | .badRecordLen | .badRecordChecksum
  | .setCompression => true
  | _ => false

variable {start : ℕ} {mode : RecoveryMode}

lemma deliver_metadata {h : Header} {header : Slice} (hmeta : isMetadataType h.type = true) :
    s.deliver h header = (⟨Code.ofByte h.type, (header.drop h.size).take h.length, 0⟩,
      { s with buffer := s.buffer.drop (h.size + h.length) }) := by
  unfold deliver
  dsimp only
  split
  · rfl
  · rw [if_pos hmeta]

lemma StandsAt.checkRecord (old : OldFrom opts file start) (h : StandsAt s file p)
    (hp : start ≤ p) (long : headerSize ≤ s.buffer.length) :
    ∃ r s' p', Reader.checkRecord opts s (parse s.buffer) = (r, s') ∧ p ≤ p' ∧
      StandsAt s' file p' ∧ yieldsNothing r.code = true ∧
      s'.firstRecordRead = s.firstRecordRead ∧ s'.recycled = s.recycled := by
  have hholds := h.holds long
  have hold := old p hp
  rw [hholds.inBlock_eq] at hold
  have hclear : StandsAt { s with buffer := [] } file (p + s.buffer.length) :=
    h.drop hholds le_rfl (by simp) rfl rfl rfl
  have hdrop (hlen : (parse s.buffer).size + (parse s.buffer).length ≤ s.buffer.length) :
      StandsAt { s with buffer := s.buffer.drop ((parse s.buffer).size +
        (parse s.buffer).length) } file (p + ((parse s.buffer).size + (parse s.buffer).length)) :=
    h.drop hholds hlen rfl rfl rfl rfl
  unfold Reader.checkRecord
  split
  · exact ⟨_, _, _, rfl, Nat.le_add_right _ _, hclear, rfl, rfl, rfl⟩
  · rename_i hlen
    have hlen := Nat.not_lt.1 hlen
    split
    · exact ⟨_, _, _, rfl, Nat.le_add_right _ _, hdrop hlen, rfl, rfl, rfl⟩
    · rename_i hnumber
      split
      · exact ⟨_, _, _, rfl, Nat.le_add_right _ _, hclear, rfl, rfl, rfl⟩
      · rename_i hzero
        split
        · exact ⟨_, _, _, rfl, Nat.le_add_right _ _, hclear, rfl, rfl, rfl⟩
        · rename_i hsum
          have hne : parse s.buffer ≠ ⟨0, 0⟩ := by
            intro heq
            simp [heq, RecordType.code] at hzero
          have hresult := hold ⟨long, hne, hlen, by simpa using hsum⟩
          split at hresult
          · rename_i hrec
            simp [hrec, hresult] at hnumber
          · have hmeta : isMetadataType (parse s.buffer).type = true := by
              rw [hresult]
              decide
            have hcode : Code.ofByte (parse s.buffer).type = .setCompression := by
              rw [hresult]
              decide
            exact ⟨_, _, _, deliver_metadata hmeta, Nat.le_add_right _ _, hdrop hlen,
              by simp [hcode, yieldsNothing], rfl, rfl⟩

/-- The reader stays behind the new log, and records of its format are let in. -/
structure Behind (s : Reader C) (file : Slice) (start : ℕ) : Prop where
  stands : ∃ p, start ≤ p ∧ StandsAt s file p
  gate : Gate true s

lemma Behind.of_flags {p' : ℕ} (gate : Gate true s) (hp : start ≤ p) (hle : p ≤ p')
    (hstands : StandsAt s' file p') (hfirst : s'.firstRecordRead = s.firstRecordRead)
    (hrecycled : s'.recycled = s.recycled) : Behind s' file start :=
  ⟨⟨p', by omega, hstands⟩, fun hr hf => by rw [hrecycled]; exact gate hr (hfirst ▸ hf)⟩

lemma StandsAt.setRecycled (h : StandsAt s file p) : StandsAt { s with recycled := true } file p :=
  ⟨h.noFaults, h.noError, h.place.imp (fun hh => ⟨hh.content, hh.fits, hh.place⟩) id⟩

/-- A round of `ReadPhysicalRecord` behind the new log. -/
lemma Behind.physicalRound (old : OldFrom opts file start) (h : Behind s file start) :
    (∃ s', Reader.physicalRound opts s = .next s' ∧ Behind s' file start) ∨
    ∃ r s', Reader.physicalRound opts s = .leave (r, s') ∧ Behind s' file start ∧
      yieldsNothing r.code = true := by
  obtain ⟨⟨p, hp, hstands⟩, gate⟩ := h
  have hmore {t : Reader C} (ht : StandsAt t file p) (hgate : Gate true t) :
      (∃ s', moreRound t = .next s' ∧ Behind s' file start) ∨
      ∃ r s', moreRound t = .leave (r, s') ∧ Behind s' file start ∧
        yieldsNothing r.code = true := by
    rcases ht.moreRound with ⟨s', p', hround, hle, hs', hfirst, hrec⟩ |
      ⟨r, s', p', hround, hle, hs', hcode, hfirst, hrec⟩
    · exact .inl ⟨s', hround, .of_flags hgate hp hle hs' hfirst hrec⟩
    · refine .inr ⟨r, s', hround, .of_flags hgate hp hle hs' hfirst hrec, ?_⟩
      rcases hcode with hcode | hcode <;> simp [hcode, yieldsNothing]
  have hcheck {t : Reader C} (ht : StandsAt t file p) (hgate : Gate true t)
      (long : headerSize ≤ t.buffer.length) :
      ∃ r s', checkRecord opts t (parse t.buffer) = (r, s') ∧ Behind s' file start ∧
        yieldsNothing r.code = true := by
    obtain ⟨r, s', p', heq, hle, hs', hcode, hfirst, hrec⟩ := ht.checkRecord old hp long
    exact ⟨r, s', heq, .of_flags hgate hp hle hs' hfirst hrec, hcode⟩
  unfold Reader.physicalRound
  split
  · exact hmore hstands gate
  · rename_i hlong
    have hlong := Nat.not_lt.1 hlong
    dsimp only
    split
    · split
      · rename_i hrefuse
        simp only [Bool.and_eq_true, Bool.not_eq_true'] at hrefuse
        exact absurd (gate rfl hrefuse.1) (by simp [hrefuse.2])
      · split
        · exact hmore hstands.setRecycled (fun _ _ => rfl)
        · obtain ⟨r, s', heq, hrest⟩ := hcheck hstands.setRecycled (fun _ _ => rfl) hlong
          exact .inr ⟨r, s', congrArg Round.leave heq, hrest⟩
    · obtain ⟨r, s', heq, hrest⟩ := hcheck hstands gate hlong
      exact .inr ⟨r, s', congrArg Round.leave heq, hrest⟩

lemma Behind.returns {result : Physical × Reader C} (old : OldFrom opts file start)
    (h : Behind s file start) (hreturns : Loop.Returns (Reader.physicalRound opts) s result) :
    Behind result.2 file start ∧ yieldsNothing result.1.code = true := by
  induction hreturns with
  | leave hround =>
    rcases h.physicalRound old with ⟨s₁, hnext, -⟩ | ⟨r₁, s₁, hleave, hrest⟩
    · exact absurd (hround.symm.trans hnext) (by simp)
    · cases hround.symm.trans hleave
      exact hrest
  | next hround _ ih =>
    rcases h.physicalRound old with ⟨s₁, hnext, hs₁⟩ | ⟨r₁, s₁, hleave, -⟩
    · cases hround.symm.trans hnext
      exact ih hs₁
    · exact absurd (hround.symm.trans hleave) (by simp)

/-- The fields that say where a reader is do not change when it reports or begins to
decompress. -/
lemma Behind.congr (h : Behind s file start) (hfile : s'.file = s.file)
    (hbuf : s'.buffer = s.buffer) (heof : s'.eof = s.eof) (herror : s'.readError = s.readError)
    (hfirst : s'.firstRecordRead = s.firstRecordRead) (hrecycled : s'.recycled = s.recycled) :
    Behind s' file start := by
  obtain ⟨⟨p, hp, hstands⟩, gate⟩ := h
  refine ⟨⟨p, hp, ⟨hfile ▸ hstands.noFaults, herror ▸ hstands.noError, ?_⟩⟩, ?_⟩
  · rcases hstands.place with hholds | hskip
    · left
      exact ⟨by rw [hbuf, hfile]; exact hholds.content, by rw [hbuf]; exact hholds.fits,
        by rw [heof, hfile, hbuf]; exact hholds.place⟩
    · right
      rw [heof, hbuf, hfile]
      exact hskip
  · intro hr hf
    rw [hrecycled]
    exact gate hr (hfirst ▸ hf)

lemma Behind.setCompression (h : Behind s file start) (offset : ℕ) (fragment : Slice) :
    Behind (({ s.checkCompressionType fragment with lastRecordOffset := offset } :
      Reader C).readCompressionType fragment) file start := by
  have hcheck : Behind (s.checkCompressionType fragment) file start := by
    unfold checkCompressionType
    dsimp only
    split <;> split <;> exact h.congr rfl rfl rfl rfl rfl rfl
  unfold readCompressionType
  split <;> exact hcheck.congr rfl rfl rfl rfl rfl rfl

/-- The `switch` outside a record, on what is found behind the new log. -/
lemma Behind.switch (opts : ReaderOptions) {l : Scan C} {r : Physical}
    (h : Behind l.reader file start) (outside : l.inFragmentedRecord = false)
    (hcode : yieldsNothing r.code = true) (offset : ℕ) :
    (∃ s', readRecordSwitch opts .tolerateCorruptedTailRecords offset l r = .leave (none, s')) ∨
    ∃ l', readRecordSwitch opts .tolerateCorruptedTailRecords offset l r = .next l' ∧
      Behind l'.reader file start ∧ l'.inFragmentedRecord = false := by
  have hkeeps : l.dropPartial = l := by simp [dropPartial, outside]
  have hbad (bytes : ℕ) (reason : String) :
      (∃ s', l.badFragment .tolerateCorruptedTailRecords bytes reason = .leave (none, s')) ∨
      ∃ l', l.badFragment .tolerateCorruptedTailRecords bytes reason = .next l' ∧
        Behind l'.reader file start ∧ l'.inFragmentedRecord = false := by
    unfold badFragment
    split
    · exact .inl ⟨_, rfl⟩
    · refine .inr ⟨l.report bytes reason, ?_, h.congr rfl rfl rfl rfl rfl rfl, outside⟩
      simp [dropPartial, report, outside]
  unfold readRecordSwitch
  cases hc : r.code with
  | eof => exact .inl ⟨l.reader, by simp [leaveAtEof, outside]⟩
  | badHeader =>
    have hstrict : RecoveryMode.tolerateCorruptedTailRecords.strict = false := by decide
    exact .inl ⟨l.reader, by simp [leaveAtEof, reportStrict, hstrict, outside]⟩
  | oldRecord => exact .inl ⟨l.reader, by simp [leaveAtOldRecord, outside]⟩
  | badRecord => exact .inr ⟨l, by simp [hkeeps], h, outside⟩
  | badRecordLen =>
    dsimp only
    split
    · exact .inl ⟨_, rfl⟩
    · exact hbad _ _
  | badRecordChecksum => exact hbad _ _
  | setCompression => exact .inr ⟨_, rfl, h.setCompression offset r.fragment, outside⟩
  | full | first | middle | last | predecessorWALInfo | userDefinedTimestampSize | unknown _ =>
    simp [hc, yieldsNothing] at hcode

/-- A call that begins behind the new log returns false. -/
lemma Behind.returns_none (old : OldFrom opts file start) {l : Scan C}
    (h : Behind l.reader file start) (outside : l.inFragmentedRecord = false) :
    ∃ s', Loop.Returns (readRecordRound opts .tolerateCorruptedTailRecords) l (none, s') := by
  induction hn : l.reader.toRead using Nat.strong_induction_on generalizing l with
  | _ n ih =>
    obtain ⟨r, s', hread, hprogress⟩ := exists_readPhysicalRecord opts l.reader
    obtain ⟨hs', hcode⟩ := h.returns old (Loop.returns_of_run hread)
    have hround : readRecordRound opts .tolerateCorruptedTailRecords l =
        readRecordSwitch opts .tolerateCorruptedTailRecords
          (l.reader.endOfBufferOffset - l.reader.buffer.length) { l with reader := s' } r := by
      simp only [readRecordRound, hread]
    rcases Behind.switch opts (l := { l with reader := s' }) hs' outside hcode
      (l.reader.endOfBufferOffset - l.reader.buffer.length) with
      ⟨s'', hleave⟩ | ⟨l', hnext, hl', outside'⟩
    · exact ⟨s'', .leave (hround.trans hleave)⟩
    · obtain ⟨hsame, heof, hbad⟩ := readRecordSwitch_next hnext
      have hlt : l'.reader.toRead < n := by
        rw [hsame, ← hn]
        rcases hprogress with hlt | hcode | hcode | ⟨⟨-, -, hfirst, hrecycled⟩, -⟩
        · exact hlt
        · exact absurd hcode heof
        · exact absurd hcode hbad
        · exact absurd (h.gate rfl hfirst) (by simp [hrecycled])
      obtain ⟨s'', hreturn⟩ := ih l'.reader.toRead hlt hl' outside' rfl
      exact ⟨s'', .next (hround.trans hnext) hreturn⟩

/-! ## The new log and the old one -/

/-- A reader at the end of the new log stands at its length. -/
lemma At.standsAt {rest : Slice} {off : ℕ} (h : At s rest off) (hrest : rest = file.drop p)
    (hmod : p % blockSize = off % blockSize) : StandsAt s file p := by
  subst hrest
  rcases h with h | ⟨rfl, pad, off', hpad, hoff, h⟩
  · refine ⟨h.noFaults, h.noError, ?_⟩
    rcases h.place with ⟨hfalse, hfull⟩ | ⟨htrue, hnil, hlt⟩
    · by_cases hend : off = blockSize
      · have hbuf : s.buffer = [] := eq_nil_of_length_eq_zero (by omega)
        refine .inr ⟨hfalse, by simp [hbuf, headerSize], by simpa [hbuf] using h.content, ?_⟩
        rw [hmod, hend, Nat.mod_self]
      · rw [Nat.mod_eq_of_lt (a := off) (by omega)] at hmod
        exact .inl ⟨h.content, by omega, .inr ⟨hfalse, by omega⟩⟩
    · rw [Nat.mod_eq_of_lt (a := off) (by omega)] at hmod
      exact .inl ⟨h.content, by omega, .inl ⟨htrue, hnil⟩⟩
  · refine ⟨h.noFaults, h.noError, .inr ?_⟩
    have hlen := congrArg List.length h.content
    rw [length_append, length_append] at hlen
    rcases h.place with ⟨hfalse, hfull⟩ | ⟨-, hnil, hlt⟩
    · have hbuf : s.buffer.length = pad.length := by omega
      exact ⟨hfalse, by omega, (append_inj h.content hbuf).2, by simpa using hmod⟩
    · rw [hnil, length_nil] at hlen
      omega

/-- **Recycling.** A new log written over the front of an old one is read as if it were alone:
exactly its records are returned, under a checksum that lets nothing pass but what was written
where it is found. -/
theorem readsAll_overwrite (C : Streaming) (opts : ReaderOptions) (oldNumber : UInt64)
    (items : List Item) (off' : ℕ) (track : Bool) (cs : List WriterCall) (w : Writer)
    (small : opts.logNumber.toNat < 2 ^ 32) (oldSmall : oldNumber.toNat < 2 ^ 32)
    (ne : oldNumber ≠ opts.logNumber) (layout : Layout 0 items off')
    (recyclable : ∀ f, .fragment f ∈ items → f.type.isLegacy = false ∨ f.type = .setCompression)
    (h : (Writer.create opts.logNumber true track).calls opts.crc C cs = some w)
    (ideal : IdealChecksum opts (overwrite w.dest (itemBytes opts.crc oldNumber items))
      w.dest.length (placed 0 items)) : ∃ s, ReadsAll opts .tolerateCorruptedTailRecords
      (startScan (openFile C (overwrite w.dest (itemBytes opts.crc oldNumber items))))
      (Writer.recordsOf cs) s := by
  have old := oldFrom_overwrite layout recyclable oldSmall ne ideal
  obtain ⟨log, hlogs, -, hends, -⟩ :=
    calls_spec (ready_create _ _ _) rfl (by simp [create]) h
  have hdest : w.dest = itemBytes opts.crc opts.logNumber (logItems log) := by
    simpa [create] using hlogs.dest
  have hrecords : log.filterMap (·.entry.record?) ++ [] = recordsOf cs := by
    rw [append_nil, ← map_fst_logEnds, hends, map_fst_written h]
  have hfile : (overwrite w.dest (itemBytes opts.crc oldNumber items)).drop w.dest.length =
      (itemBytes opts.crc oldNumber items).drop w.dest.length := drop_left
  have hmod : w.dest.length % blockSize = w.blockOffset % blockSize := by
    rw [hdest, ← hlogs.layout.length_mod opts.crc opts.logNumber]
    simp [create]
  rw [← hrecords]
  obtain ⟨s, hs, -⟩ := readsAll_log .tolerateCorruptedTailRecords [] (fun _ => small) hlogs.plain
    (startScan (openFile C (overwrite w.dest (itemBytes opts.crc oldNumber items)))) hlogs.layout
    (P := fun _ => True) (by
      rw [← hdest]
      exact between_openFile C true _)
    (by
      intro l' hl' _
      obtain ⟨s, hreturn⟩ := Behind.returns_none old
        ⟨⟨_, le_rfl, hl'.at_rest.standsAt hfile.symm hmod⟩, hl'.gate⟩ hl'.outside
      exact ⟨s, .eof hreturn, trivial⟩)
  exact ⟨s, hs⟩

/-- A log of one record over one of two. -/
theorem readsAll_overwrite_small : ∃ w,
    (Writer.create 5 true false).calls .additive .copying [.addRecord [1] 1] = some w ∧
    ∃ s, ReadsAll (plainOptions 5) .tolerateCorruptedTailRecords
      (startScan (openFile .copying (overwrite w.dest (itemBytes .additive 4
        [.fragment ⟨.recyclableFull, [7, 7, 7, 7, 7]⟩, .fragment ⟨.recyclableFull, [9]⟩]))))
      [[1]] s := by
  have hrun : ((create 5 true false).calls .additive .copying [.addRecord [1] 1]).any
      (fun w : Writer => decide (w.dest = itemBytes .additive 5
        [.fragment ⟨.recyclableFull, [1]⟩])) = true := by
    decide +kernel
  obtain ⟨w, hw, hdecide⟩ := (Option.any_eq_true _ _).1 hrun
  have hdest := of_decide_eq_true hdecide
  refine ⟨w, hw, readsAll_overwrite .copying (plainOptions 5) 4
    [.fragment ⟨.recyclableFull, [7, 7, 7, 7, 7]⟩, .fragment ⟨.recyclableFull, [9]⟩] 28 false
    [.addRecord [1] 1] w (by decide) (by decide) (by decide) ?_ ?_ hw ?_⟩
  · exact .fragment (by decide) (by decide) (.fragment (by decide) (by decide) (.nil _))
  · simp [RecordType.isLegacy, RecordType.code]
  · rw [hdest]
    exact idealChecksum_of_lt (by decide +kernel)

/-- An old log in the legacy format has no log numbers to tell it by: its second record is
returned behind the new log. -/
theorem not_readsAll_overwrite_legacy : ∃ w old,
    (Writer.create 5 true false).calls .additive .copying [.addRecord [1] 1] = some w ∧
    (Writer.create 4 false false).calls .additive .copying
      [.addRecord [7, 7, 7, 7, 7] 1, .addRecord [9] 2] = some old ∧
    IdealChecksum (plainOptions 5) (overwrite w.dest old.dest) w.dest.length
      (placed 0 [.fragment ⟨.full, [7, 7, 7, 7, 7]⟩, .fragment ⟨.full, [9]⟩]) ∧
    readAll (C := .copying) (plainOptions 5) .tolerateCorruptedTailRecords 5 3
      (openFile .copying (overwrite w.dest old.dest)) = some [[1], [9]] ∧
    ¬ ∃ s, ReadsAll (plainOptions 5) .tolerateCorruptedTailRecords
      (startScan (openFile .copying (overwrite w.dest old.dest)))
      (Writer.recordsOf [.addRecord [1] 1]) s := by
  have hnew : ((create 5 true false).calls .additive .copying [.addRecord [1] 1]).any
      (fun w : Writer => decide (w.dest = itemBytes .additive 5
        [.fragment ⟨.recyclableFull, [1]⟩])) = true := by
    decide +kernel
  have hold : ((create 4 false false).calls .additive .copying
      [.addRecord [7, 7, 7, 7, 7] 1, .addRecord [9] 2]).any
      (fun w : Writer => decide (w.dest = itemBytes .additive 4
        [.fragment ⟨.full, [7, 7, 7, 7, 7]⟩, .fragment ⟨.full, [9]⟩])) = true := by
    decide +kernel
  obtain ⟨w, hw, hdecide⟩ := (Option.any_eq_true _ _).1 hnew
  obtain ⟨old, ho, hdecide'⟩ := (Option.any_eq_true _ _).1 hold
  refine ⟨w, old, hw, ho, ?_⟩
  rw [of_decide_eq_true hdecide, of_decide_eq_true hdecide']
  have hread : readAll (C := .copying) (plainOptions 5) .tolerateCorruptedTailRecords 5 3
      (openFile .copying (overwrite (itemBytes .additive 5 [.fragment ⟨.recyclableFull, [1]⟩])
        (itemBytes .additive 4
          [.fragment ⟨.full, [7, 7, 7, 7, 7]⟩, .fragment ⟨.full, [9]⟩]))) = some [[1], [9]] := by
    decide +kernel
  refine ⟨idealChecksum_of_lt (by decide +kernel), hread, ?_⟩
  rintro ⟨s, hs⟩
  exact absurd (hs.eq_of_readAll hread) (by decide)

end Reader

end BucketLSM.Log
