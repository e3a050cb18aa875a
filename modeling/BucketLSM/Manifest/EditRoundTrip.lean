import BucketLSM.Manifest.EditCodec

/-!
# A version edit is read back

Each record that `EncodeTo` writes takes the loop of `DecodeFrom` through one round, which sets the
field that the record is for. The lengths of byte strings are written in 32 bits, and no string that
is read is longer, so an edit is read back exactly when its strings are shorter than 4 GiB and the
temperatures of its files are known to the reader.
-/

namespace BucketLSM.EditCodec

open BucketLSM.Lib BucketLSM.Lib.Wire BucketLSM.Lib.Wire.Get Option List NewFileCustomTag Reads Steps
open Except LittleEndian

/-! ## What can be written -/

/-- The length of the string fits into its prefix. -/
def Short (s : Bytes) : Prop := s.length < 2 ^ 32

/-- The strings of a new file are short and its temperature is known. -/
structure FileMetaData.Fits (f : FileMetaData) : Prop where
  smallest : Short f.smallest
  largest : Short f.largest
  fileChecksum : Short f.fileChecksum
  fileChecksumFuncName : Short f.fileChecksumFuncName
  temperature : f.temperature ≤ kCold

namespace VersionEdit

/-- All strings of an edit are short, and the temperatures of its files are known. -/
structure Fits (e : VersionEdit) : Prop where
  dbId : ∀ s, e.dbId = some s → Short s
  comparator : ∀ s, e.comparator = some s → Short s
  compactCursors : ∀ c ∈ e.compactCursors, Short c.2
  newFiles : ∀ x ∈ e.newFiles, x.2.Fits
  blobFileAdditions : ∀ b ∈ e.blobFileAdditions, Short b.checksumMethod ∧ Short b.checksumValue
  columnFamilyAdd : ∀ s, e.columnFamilyAdd = some s → Short s
  fullHistoryTsLow : Short e.fullHistoryTsLow

/-- The keys of an edit are valid internal keys. -/
def KeysValid (e : VersionEdit) : Prop :=
  (∀ c ∈ e.compactCursors, keyValid c.2) ∧
    ∀ x ∈ e.newFiles, keyValid x.2.smallest ∧ keyValid x.2.largest

/-- A new file with a checksum has the name of the checksum function. -/
def ChecksumsNamed (e : VersionEdit) : Prop :=
  ∀ x ∈ e.newFiles, x.2.fileChecksumFuncName = kUnknownFileChecksumFuncName →
    x.2.fileChecksum = kUnknownFileChecksum

end VersionEdit

/-! ## Values -/

/-- A 32-bit varint is read back. -/
lemma getVarint32_put (v : U32) (rest : Bytes) :
    getVarint32 (putVarint32 v ++ rest) = some (v, rest) := by
  have h := getVarint_putVarint v.isLt (show 32 < 7 * 5 + 1 by decide) (by decide) rest
  rw [getVarint32, putVarint32, h, map_some]
  simp only [Nat.mod_eq_of_lt v.isLt]

/-- A 64-bit varint is read back. -/
lemma getVarint64_put (v : U64) (rest : Bytes) :
    getVarint64 (putVarint64 v ++ rest) = some (v, rest) := by
  have h := getVarint_putVarint v.isLt (show 64 < 7 * 10 + 1 by decide) (by decide) rest
  rw [getVarint64, putVarint64, h, map_some]
  simp only [Nat.mod_eq_of_lt v.isLt]

/-- The same where nothing follows. -/
lemma getVarint64_put_nil (v : U64) : getVarint64 (putVarint64 v) = some (v, []) := by
  have h := getVarint64_put v []
  rw [append_nil] at h
  exact h

/-- Eight bytes are read back. -/
lemma getFixed64_encode (v : U64) (rest : Bytes) :
    getFixed64 (encode 8 v.val ++ rest) = some (v, rest) := by
  have hlt : v.val < 256 ^ 8 := v.isLt
  rw [getFixed64, getFixed_encode hlt, map_some]
  simp only [Nat.mod_eq_of_lt v.isLt]

/-- The same where nothing follows. -/
lemma getFixed64_encode_nil (v : U64) :
    getFixed64 (encode 8 v.val) = some (v, []) := by
  have h := getFixed64_encode v []
  rw [append_nil] at h
  exact h

/-- A level goes through an unsigned number and back. -/
lemma Level.ofU32_toU32 (level : Level) : Level.ofU32 level.toU32 = level := by
  obtain ⟨z, hlow, hhigh⟩ := level
  rw [Level.ofU32]
  split_ifs with h
  · apply Subtype.ext
    simp only [Level.toU32] at h ⊢
    omega
  · apply Subtype.ext
    simp only [Level.toU32] at h ⊢
    omega

/-- A level is read back. -/
lemma getLevel_put (level : Level) (rest : Bytes) :
    getLevel (putLevel level ++ rest) = some (level, rest) := by
  rw [getLevel, putLevel, getVarint32_put, map_some, Level.ofU32_toU32]

/-- A valid key that is short enough is read back. -/
lemma getInternalKey_put {key : Bytes} (hshort : Short key) (hvalid : keyValid key)
    (rest : Bytes) : getInternalKey (putLengthPrefixed key ++ rest) = some (key, rest) := by
  rw [getInternalKey, getLengthPrefixed_putLengthPrefixed hshort]
  simp [hvalid]

/-- A natural number that fits 32 bits is read back. -/
lemma getVarint32_of_lt {n : ℕ} (hn : n < 2 ^ 32) (rest : Bytes) :
    getVarint32 (putVarint n ++ rest) = some (⟨n, hn⟩, rest) :=
  getVarint32_put ⟨n, hn⟩ rest

/-- A varint has a byte for every seven bits. -/
lemma length_putVarint_le {n k : ℕ} (hn : n < 128 ^ (k + 1)) : (putVarint n).length ≤ k + 1 := by
  induction k generalizing n with
  | zero =>
    rw [putVarint, if_pos (by omega)]
    simp
  | succ k ih =>
    rw [putVarint]
    split_ifs with h
    · simp
    · have hdiv : n / 128 < 128 ^ (k + 1) := by
        rw [Nat.div_lt_iff_lt_mul (by decide), ← pow_succ]
        exact hn
      have hlen := ih hdiv
      rw [length_cons]
      omega

/-- A varint is a short string. -/
lemma short_putVarint64 (v : U64) : Short (putVarint64 v) := by
  have hlt : v.val < 128 ^ (9 + 1) := v.isLt.trans (by decide)
  have hlen := length_putVarint_le hlt
  exact lt_of_le_of_lt hlen (by decide)

/-- A byte is a short string. -/
lemma short_singleton (b : Fin 256) : Short [b] := by
  rw [Short, length_singleton]
  decide

/-! ## Custom fields -/

namespace NewFileState

variable {s t : NewFileState} {tag : NewFileCustomTag} {field : Bytes}

/-- A custom field is one round of the loop over the custom fields. -/
lemma steps_custom (htag : tag ≠ .kTerminate) (hfield : Short field)
    (hset : s.setField tag field = .ok t) : Steps round (putCustom tag field) s t := by
  have hne : tag.value ≠ kTerminate.value := by
    intro h
    have heq := ofValue?_value tag
    rw [h, ofValue?_value] at heq
    exact htag (some.inj heq).symm
  have happly : s.applyField ⟨tag.value, tag.value_lt⟩ field = pure (.next t) := by
    simp only [applyField, ofValue?_value, hset]
  refine .single ?_ (by simp [putCustom, putVarint_ne_nil])
  refine bind (reads_orFail (getVarint32_of_lt tag.value_lt)) ?_
  simp only [if_neg hne]
  exact bind_pure (reads_orFail (getLengthPrefixed_putLengthPrefixed hfield)) happly

/-- A custom field that is only written when it is not the default. -/
lemma steps_customIf {b : Bool} (htag : tag ≠ .kTerminate) (hfield : Short field)
    (hset : b = true → s.setField tag field = .ok t) (hskip : b = false → s = t) :
    Steps round (putCustomIf b tag field) s t := by
  cases b with
  | false =>
    rw [hskip rfl]
    exact .refl t
  | true => exact steps_custom htag hfield (hset rfl)

variable {v : U64} {set : U64 → NewFileState} {message : String}

/-- The rounds of the fields that hold a number. -/
lemma steps_number (htag : tag ≠ .kTerminate)
    (hset : s.setField tag (putVarint64 v) = number getVarint64 message set (putVarint64 v)) :
    Steps round (putCustom tag (putVarint64 v)) s (set v) :=
  steps_custom htag (short_putVarint64 v) (by rw [hset, number, getVarint64_put_nil])

/-- A field with a number that is only written when it is not zero. -/
lemma steps_numberIf {v : U64} (htag : tag ≠ .kTerminate)
    (hset : s.setField tag (putVarint64 v) = .ok t) (hskip : v = 0 → s = t) :
    Steps round (putCustomIf (v ≠ 0) tag (putVarint64 v)) s t := by
  refine steps_customIf htag (short_putVarint64 v) (fun _ => hset) fun h => hskip ?_
  simpa using h

end NewFileState

/-- The path id has two bits. -/
lemma getPathId_le (fd : FileDescriptor) : fd.getPathId ≤ 3 := by
  have h := fd.packedNumberAndPathId.isLt
  rw [FileDescriptor.getPathId]
  omega

/-- The number has the other 62 bits. -/
lemma getNumber_eq (fd : FileDescriptor) : fd.getNumber = fd.packedNumberAndPathId.val % 2 ^ 62 :=
  Nat.and_two_pow_sub_one_eq_mod _ 62

/-- A descriptor is put together again from its parts. -/
lemma fileDescriptor_eq (fd : FileDescriptor) :
    fileDescriptor fd.getNumber fd.getPathId fd.fileSize fd.smallestSeqno fd.largestSeqno = fd := by
  obtain ⟨packed, fileSize, smallestSeqno, largestSeqno⟩ := fd
  have hlt := packed.isLt
  have hnumber : packed.val % 2 ^ 62 < 2 ^ 62 := Nat.mod_lt _ (by decide)
  have hor := Nat.two_pow_add_eq_or_of_lt hnumber (packed.val / 2 ^ 62)
  have hpack : packFileNumberAndPathId (packed.val % 2 ^ 62) (packed.val / 2 ^ 62) = packed := by
    apply Fin.ext
    simp only [packFileNumberAndPathId]
    rw [Nat.mod_eq_of_lt (show packed.val / 2 ^ 62 * 2 ^ 62 < 2 ^ 64 by omega), Nat.or_comm,
      Nat.mul_comm, ← hor]
    omega
  rw [fileDescriptor, getNumber_eq, FileDescriptor.getPathId]
  simp only [hpack]

/-- The two halves of a unique id are read back. -/
lemma decodeUniqueIdBytes_encode (id : U64 × U64) :
    NewFileState.decodeUniqueIdBytes (encodeUniqueIdBytes id) = some id := by
  have hlen : (encodeUniqueIdBytes id).length = 16 := by simp [encodeUniqueIdBytes]
  rw [NewFileState.decodeUniqueIdBytes, if_neg (by simp [hlen]), encodeUniqueIdBytes]
  simp only [getFixed64_encode, getFixed64_encode_nil]

namespace NewFileState

variable {s : NewFileState}

variable {f : FileMetaData}

/-- A field that is left out has its default already: the oldest blob file. -/
lemma steps_oldestBlobFileNumber (v : U64) (hs : s.file.oldestBlobFileNumber = 0) :
    Steps round (putCustomIf (v ≠ 0) .kOldestBlobFileNumber (putVarint64 v)) s
      { s with file := { s.file with oldestBlobFileNumber := v } } :=
  steps_numberIf (by decide) (by simp only [setField, number, getVarint64_put_nil])
    fun h => by rw [h, ← hs]

/-- The size for range deletions. -/
lemma steps_compensatedRangeDeletionSize (v : U64) (hs : s.file.compensatedRangeDeletionSize = 0) :
    Steps round (putCustomIf (v ≠ 0) .kCompensatedRangeDeletionSize (putVarint64 v)) s
      { s with file := { s.file with compensatedRangeDeletionSize := v } } :=
  steps_numberIf (by decide) (by simp only [setField, number, getVarint64_put_nil])
    fun h => by rw [h, ← hs]

/-- The size of the tail. -/
lemma steps_tailSize (v : U64) (hs : s.file.tailSize = 0) :
    Steps round (putCustomIf (v ≠ 0) .kTailSize (putVarint64 v)) s
      { s with file := { s.file with tailSize := v } } :=
  steps_numberIf (by decide) (by simp only [setField, number, getVarint64_put_nil])
    fun h => by rw [h, ← hs]

/-- The checksum, which is written if its function is known. -/
lemma steps_checksum (hf : f.Fits) (hsum : f.fileChecksumFuncName = kUnknownFileChecksumFuncName →
      f.fileChecksum = kUnknownFileChecksum) (hs : s.file.fileChecksum = kUnknownFileChecksum) :
    Steps round (putCustomIf (f.fileChecksumFuncName ≠ kUnknownFileChecksumFuncName) .kFileChecksum
        f.fileChecksum) s { s with file := { s.file with fileChecksum := f.fileChecksum } } := by
  refine steps_customIf (by decide) hf.fileChecksum (fun _ => rfl) fun h => ?_
  rw [hsum (by simpa using h), ← hs]

/-- The name of the checksum function. -/
lemma steps_checksumFuncName (hf : f.Fits)
    (hs : s.file.fileChecksumFuncName = kUnknownFileChecksumFuncName) : Steps round
      (putCustomIf (f.fileChecksumFuncName ≠ kUnknownFileChecksumFuncName) .kFileChecksumFuncName
        f.fileChecksumFuncName) s
      { s with file := { s.file with fileChecksumFuncName := f.fileChecksumFuncName } } := by
  refine steps_customIf (by decide) hf.fileChecksumFuncName (fun _ => rfl) fun h => ?_
  have hname : f.fileChecksumFuncName = kUnknownFileChecksumFuncName := by simpa using h
  rw [hname, ← hs]

/-- The path id, in one byte. -/
lemma steps_pathId (fd : FileDescriptor) (hs : s.pathId = 0) :
    Steps round (putCustomIf (fd.getPathId ≠ 0) .kPathId [char fd.getPathId]) s
      { s with pathId := fd.getPathId } := by
  have hle := getPathId_le fd
  refine steps_customIf (by decide) (short_singleton _) (fun _ => ?_) fun h => ?_
  · have hchar : (char fd.getPathId).val = fd.getPathId := Nat.mod_eq_of_lt (by omega)
    simp only [setField, byte, hchar]
    rw [if_neg (by omega)]
  · have hzero : fd.getPathId = 0 := by simpa using h
    rw [hzero, ← hs]

/-- The temperature, which the decoder takes only up to the coldest one it knows. -/
lemma steps_temperature {temperature : Fin 256} (hcold : temperature ≤ kCold)
    (hs : s.file.temperature = kUnknown) :
    Steps round (putCustomIf (temperature ≠ kUnknown) .kTemperature [temperature]) s
      { s with file := { s.file with temperature := temperature } } := by
  refine steps_customIf (by decide) (short_singleton _) (fun _ => ?_) fun h => ?_
  · simp only [setField, byte, if_pos hcold]
  · have hunknown : temperature = kUnknown := by simpa using h
    rw [hunknown, ← hs]

/-- The mark for compaction. -/
lemma steps_markedForCompaction (marked : Bool) (hs : s.file.markedForCompaction = false) :
    Steps round (putCustomIf marked .kNeedCompaction [1]) s
      { s with file := { s.file with markedForCompaction := marked } } := by
  refine steps_customIf (by decide) (short_singleton _) (fun h => ?_) fun h => ?_
  · simp only [setField, byte, h, decide_true]
  · rw [h, ← hs]

/-- The log number, which is that of the edit. -/
lemma steps_minLog {minLog : Option U64} (hkept : minLog.isSome → minLog = s.minLog) : Steps round
      (putCustomIf minLog.isSome .kMinLogNumberToKeepHack
        (encode 8 (minLog.getD 0).val)) s s := by
  refine steps_customIf (by decide) ?_ (fun h => ?_) fun _ => rfl
  · rw [Short, length_encode]
    decide
  · obtain ⟨v, hv⟩ := isSome_iff_exists.1 h
    have hlog := hkept h
    rw [hv] at hlog
    simp only [setField, number, hv, getD_some, getFixed64_encode_nil]
    rw [hlog]

/-- The unique id. -/
lemma steps_uniqueId (id : U64 × U64) (hs : s.file.uniqueId = (0, 0)) :
    Steps round (putCustomIf (id ≠ (0, 0)) .kUniqueId (encodeUniqueIdBytes id)) s
      { s with file := { s.file with uniqueId := id } } := by
  refine steps_customIf (by decide) ?_ (fun _ => ?_) fun h => ?_
  · rw [Short, encodeUniqueIdBytes, length_append, length_encode,
      length_encode]
    decide
  · simp only [setField, decodeUniqueIdBytes_encode]
  · have hzero : id = (0, 0) := by simpa using h
    rw [hzero, ← hs]

/-- Whether timestamps are persisted; written if they are not. -/
lemma steps_userDefinedTimestampsPersisted (persisted : Bool)
    (hs : s.file.userDefinedTimestampsPersisted = true) :
    Steps round (putCustomIf (!persisted) .kUserDefinedTimestampsPersisted [0]) s
      { s with file := { s.file with userDefinedTimestampsPersisted := persisted } } := by
  refine steps_customIf (by decide) (short_singleton _) (fun h => ?_) fun h => ?_
  · have hpersisted : persisted = false := by simpa using h
    subst hpersisted
    rfl
  · have hpersisted : persisted = true := by simpa using h
    rw [hpersisted, ← hs]

/-- The custom fields of a file fill in all that is not at its default. -/
lemma steps_customFields (hf : f.Fits)
    (hsum : f.fileChecksumFuncName = kUnknownFileChecksumFuncName →
      f.fileChecksum = kUnknownFileChecksum) {minLog kept : Option U64}
    (hkept : minLog.isSome → minLog = kept) : Steps round (encodeCustomFields f minLog)
      ⟨{ smallest := f.smallest, largest := f.largest }, 0, kept⟩
      ⟨{ f with fd := {} }, f.fd.getPathId, kept⟩ := by
  rw [encodeCustomFields]
  refine (steps_number (by decide) (by rw [setField])).trans ?_
  refine (steps_number (by decide) (by rw [setField])).trans ?_
  refine (steps_number (by decide) (by rw [setField])).trans ?_
  refine (steps_checksum hf hsum rfl).trans ?_
  refine (steps_checksumFuncName hf rfl).trans ?_
  refine (steps_pathId f.fd rfl).trans ?_
  refine (steps_temperature hf.temperature rfl).trans ?_
  refine (steps_markedForCompaction f.markedForCompaction rfl).trans ?_
  refine (steps_minLog hkept).trans ?_
  refine (steps_oldestBlobFileNumber _ rfl).trans ?_
  refine (steps_uniqueId f.uniqueId rfl).trans ?_
  refine (steps_compensatedRangeDeletionSize _ rfl).trans ?_
  refine (steps_tailSize _ rfl).trans ?_
  exact steps_userDefinedTimestampsPersisted f.userDefinedTimestampsPersisted rfl

end NewFileState

/-! ## Records -/

namespace VersionEdit

variable {e e' : VersionEdit} {bytes : Bytes} {tag : Tag}

/-- A record is one round of the loop over the records. -/
lemma steps_record (h : Reads (e.decodeTag tag) bytes e') :
    Steps round (putTag tag ++ bytes) e e' := by
  refine .single (fun rest => ?_) (by simp [putTag, putVarint_ne_nil])
  rw [round, append_assoc, putTag, getVarint32_of_lt tag.value_lt]
  simp only [Tag.ofValue?_value]
  have hnext : Reads (e.decodeTag tag >>= fun e' => pure (Round.next e')) bytes
      (Round.next e' : Round VersionEdit VersionEdit) := h.bind_pure rfl
  exact hnext rest

variable {α : Type}

/-- An optional record. -/
lemma steps_option {put : α → Bytes} {x : Option α} (set : VersionEdit → Option α → VersionEdit)
    (hnone : set e none = e)
    (h : ∀ a, x = some a → Reads (e.decodeTag tag) (put a) (set e (some a))) :
    Steps round (putOption tag put x) e (set e x) := by
  cases x with
  | none =>
    rw [hnone]
    exact .refl e
  | some a => exact steps_record (h a rfl)

/-- A record that holds what `get` reads. -/
lemma reads_record {get : Bytes → Option (α × Bytes)} {message : String} {set : α → VersionEdit}
    {a : α} (h : ∀ rest, get (bytes ++ rest) = some (a, rest)) :
    Reads (record get message set) bytes (set a) :=
  bind_pure (reads_orFail h) rfl

/-- A field is read by itself. -/
lemma reads_within {field : Bytes} {g : Get Corruption α} {a : α} (h : Reads g field a) :
    Reads (within field g) [] a := by
  intro rest
  have hnil := h []
  rw [append_nil] at hnil
  rw [within, hnil]
  rfl

/-- The encoders of blob records write no custom fields. -/
lemma reads_skipCustomFields (context : String) :
    Reads (skipCustomFields context) (putVarint 0) () := by
  refine reads_loop (.refl ()) ?_
  exact bind_pure (reads_orFail (getVarint32_of_lt (by decide))) rfl

/-- A blob file addition is read back. -/
lemma reads_blobFileAddition {b : BlobFileAddition} (hmethod : Short b.checksumMethod)
    (hvalue : Short b.checksumValue) : Reads BlobFileAddition.decodeFrom b.encodeTo b := by
  refine bind (reads_orFail (getVarint64_put _)) ?_
  refine bind (reads_orFail (getVarint64_put _)) ?_
  refine bind (reads_orFail (getVarint64_put _)) ?_
  refine bind (reads_orFail (getLengthPrefixed_putLengthPrefixed hmethod)) ?_
  refine bind (reads_orFail (getLengthPrefixed_putLengthPrefixed hvalue)) ?_
  exact bind_pure (reads_skipCustomFields _) rfl

/-- Blob file garbage is read back. -/
lemma reads_blobFileGarbage (b : BlobFileGarbage) :
    Reads BlobFileGarbage.decodeFrom b.encodeTo b := by
  refine bind (reads_orFail (getVarint64_put _)) ?_
  refine bind (reads_orFail (getVarint64_put _)) ?_
  refine bind (reads_orFail (getVarint64_put _)) ?_
  exact bind_pure (reads_skipCustomFields _) rfl

/-- The addition of a log is read back. -/
lemma reads_walAddition (w : WalAddition) : Reads WalAddition.decodeFrom w.encodeTo w := by
  refine bind (reads_orFail (getVarint64_put _)) ?_
  have hlast : Reads (WalAddition.round w) (putVarint 1) (.leave w) :=
    bind_pure (reads_orFail (getVarint32_of_lt (by decide))) rfl
  refine reads_loop ?_ hlast
  split_ifs with h
  · refine .single ?_ (by simp [putVarint_ne_nil])
    refine bind (reads_orFail (getVarint32_of_lt (show 2 < 2 ^ 32 by decide))) ?_
    exact bind_pure (reads_orFail (getVarint64_put _)) rfl
  · rw [← not_not.1 h]
    exact .refl w

/-- It is a short string. -/
lemma length_walAddition (w : WalAddition) : Short w.encodeTo := by
  have hnumber : (putVarint64 w.number).length ≤ 10 :=
    length_putVarint_le (w.number.isLt.trans (by decide))
  have hsize : (putVarint64 w.syncedSizeInBytes).length ≤ 10 :=
    length_putVarint_le (w.syncedSizeInBytes.isLt.trans (by decide))
  have htag (n : ℕ) (hn : n < 128) : (putVarint n).length ≤ 1 := length_putVarint_le (by omega)
  have htwo := htag 2 (by decide)
  have hone := htag 1 (by decide)
  rw [Short, WalAddition.encodeTo]
  split_ifs <;> simp only [length_append, length_nil] <;> omega

/-- A new file, with its fixed part and its custom fields. -/
lemma steps_newFile {tsSz minLog : Option _} {x : Level × FileMetaData}
    (hts : ∀ n, tsSz = some n → n = 0) (hf : x.2.Fits)
    (hsum : x.2.fileChecksumFuncName = kUnknownFileChecksumFuncName →
      x.2.fileChecksum = kUnknownFileChecksum)
    (hlog : minLog.isSome → minLog = e.minLogNumberToKeep)
    (h : encodeNewFile tsSz minLog x = some bytes) :
    Steps round bytes e (addNewFile e x.1 x.2) := by
  rw [encodeNewFile] at h
  split_ifs at h with hinvalid
  simp only [Bool.or_eq_true, Bool.not_eq_true', not_or, Bool.not_eq_false, decide_eq_true_eq]
    at hinvalid
  obtain ⟨tsSz, rfl, rfl⟩ := map_eq_some_iff.1 h
  obtain rfl := hts tsSz rfl
  refine steps_record ?_
  have hnumber : x.2.fd.getNumber < 2 ^ 64 := by
    rw [getNumber_eq]
    exact (Nat.mod_lt _ (by decide)).trans (by decide)
  have hget := getVarint64_put ⟨x.2.fd.getNumber, hnumber⟩
  have hkeys := hinvalid.1
  rw [encodeFileBoundaries, if_pos (Or.inl rfl), append_assoc]
  refine bind (reads_orFail (getLevel_put _)) ?_
  refine bind (reads_orFail hget) ?_
  refine bind (reads_orFail (getVarint64_put _)) ?_
  refine bind (reads_orFail (getInternalKey_put hf.smallest hkeys.1)) ?_
  refine bind (reads_orFail (getInternalKey_put hf.largest hkeys.2)) ?_
  refine bind (reads_orFail (getVarint64_put _)) ?_
  refine bind (reads_orFail (getVarint64_put _)) ?_
  have hlast (s : NewFileState) : Reads s.round (putVarint kTerminate.value) (.leave s) :=
    bind_pure (reads_orFail (getVarint32_of_lt (by decide))) rfl
  refine bind_pure (reads_loop (NewFileState.steps_customFields hf hsum hlog) (hlast _)) ?_
  simp only [fileDescriptor_eq]

/-- All new files, in their order. -/
lemma steps_newFiles {tsSz : Option ℕ} {minLog : Option U64} {files : List (Level × FileMetaData)}
    (hts : ∀ n, tsSz = some n → n = 0) (hf : ∀ x ∈ files, x.2.Fits)
    (hsum : ∀ x ∈ files, x.2.fileChecksumFuncName = kUnknownFileChecksumFuncName →
      x.2.fileChecksum = kUnknownFileChecksum)
    (hlog : minLog.isSome → minLog = e.minLogNumberToKeep)
    (h : encodeNewFiles tsSz minLog files = some bytes) :
    Steps round bytes e { e with newFiles := e.newFiles ++ files } := by
  induction files generalizing e minLog bytes with
  | nil =>
    obtain rfl := some.inj h
    rw [append_nil]
    exact .refl e
  | cons x files ih =>
    rw [encodeNewFiles] at h
    cases hx : encodeNewFile tsSz minLog x with
    | none => simp [hx] at h
    | some b =>
      cases hrest : encodeNewFiles tsSz none files with
      | none => simp [hx, hrest] at h
      | some bs =>
        simp only [hx, hrest] at h
        obtain rfl := some.inj h
        have hfirst := steps_newFile hts (hf x mem_cons_self) (hsum x mem_cons_self) hlog hx
        have hothers := ih (e := addNewFile e x.1 x.2) (fun y hy => hf y (mem_cons_of_mem x hy))
          (fun y hy => hsum y (mem_cons_of_mem x hy)) (fun hnone => absurd hnone (by simp)) hrest
        have hall := hfirst.trans hothers
        rw [addNewFile, append_assoc] at hall
        exact hall

/-! ## All records -/

/-- Records that are added to a list, by induction on the list. -/
lemma steps_list {put : α → Bytes} {l : List α} (set : VersionEdit → List α → VersionEdit)
    (hnil : set e [] = e) (h : ∀ l', ∀ a ∈ l, Steps round (put a) (set e l') (set e (l' ++ [a]))) :
    Steps round (l.flatMap put) e (set e l) :=
  flatMap (set e) hnil h

/-- A record that is only written when its field is not the default. -/
lemma steps_if {c : Prop} [Decidable c] (h : c → Steps round bytes e e') (hskip : ¬ c → e = e') :
    Steps round (if c then bytes else []) e e' := by
  split_ifs with hc
  · exact h hc
  · rw [hskip hc]
    exact .refl e'

/-- A compact cursor. -/
lemma steps_compactCursor {cursor : Level × Bytes} (hshort : Short cursor.2)
    (hvalid : keyValid cursor.2) : Steps round (encodeCompactCursor cursor) e
      { e with compactCursors := e.compactCursors ++ [cursor] } := by
  rw [encodeCompactCursor, if_pos hvalid]
  refine steps_record ?_
  refine bind (reads_orFail (getLevel_put _)) ?_
  exact bind_pure (reads_orFail (getInternalKey_put hshort hvalid)) rfl

/-- A deleted file. -/
lemma steps_deletedFile (deleted : Level ×ₗ U64) : Steps round (encodeDeletedFile deleted) e
      { e with deletedFiles := insert deleted e.deletedFiles } := by
  rw [encodeDeletedFile]
  refine steps_record ?_
  refine bind (reads_orFail (getLevel_put _)) ?_
  exact bind_pure (reads_orFail (getVarint64_put _)) rfl

/-- The deleted files are written in order and inserted one by one. -/
lemma steps_deletedFiles (deleted : Finset (Level ×ₗ U64)) (he : e.deletedFiles = ∅) :
    Steps round ((deleted.sort (· ≤ ·)).flatMap encodeDeletedFile) e
      { e with deletedFiles := deleted } := by
  have h : Steps round ((deleted.sort (· ≤ ·)).flatMap encodeDeletedFile) e
      { e with deletedFiles := (deleted.sort (· ≤ ·)).toFinset } := by
    have hstart : { e with deletedFiles := ([] : List (Level ×ₗ U64)).toFinset } = e := by
      rw [toFinset_nil, ← he]
    refine flatMap (fun l => { e with deletedFiles := l.toFinset }) hstart fun l a _ => ?_
    have hstep := steps_deletedFile (e := { e with deletedFiles := l.toFinset }) a
    have hset : (l ++ [a]).toFinset = insert a l.toFinset := by
      ext x
      simp
    simp only [hset]
    exact hstep
  rw [Finset.sort_toFinset] at h
  exact h

/-- What stands in front of the new files. -/
lemma steps_encodeHead (hf : e.Fits) (hkeys : ∀ c ∈ e.compactCursors, keyValid c.2) :
    Steps round e.encodeHead {}
      { e with
        newFiles := []
        blobFileAdditions := []
        blobFileGarbages := []
        walAdditions := []
        walDeletion := 0
        columnFamily := 0
        columnFamilyAdd := none
        columnFamilyDrop := false
        atomicGroup := none
        fullHistoryTsLow := []
        persistUserDefinedTimestamps := none } := by
  have hstring {s : Bytes} (hs : Short s) := getLengthPrefixed_putLengthPrefixed hs
  rw [encodeHead]
  refine trans (steps_option (fun d x => { d with dbId := x }) rfl fun a h =>
    reads_record (hstring (hf.dbId a h))) ?_
  refine trans (steps_option (fun d x => { d with comparator := x }) rfl fun a h =>
    reads_record (hstring (hf.comparator a h))) ?_
  refine trans (steps_option (fun d x => { d with logNumber := x }) rfl fun a _ =>
    reads_record (getVarint64_put a)) ?_
  refine trans (steps_option (fun d x => { d with prevLogNumber := x }) rfl fun a _ =>
    reads_record (getVarint64_put a)) ?_
  refine trans (steps_option (fun d x => { d with nextFileNumber := x }) rfl fun a _ =>
    reads_record (getVarint64_put a)) ?_
  refine trans (steps_option (fun d x => { d with maxColumnFamily := x }) rfl fun a _ =>
    reads_record (getVarint32_put a)) ?_
  refine trans (steps_option (fun d x => { d with minLogNumberToKeep := x }) rfl fun a _ =>
    reads_record (getVarint64_put a)) ?_
  refine trans (steps_option (fun d x => { d with lastSequence := x }) rfl fun a _ =>
    reads_record (getVarint64_put a)) ?_
  refine trans (steps_list (fun d l => { d with compactCursors := l }) rfl fun l c hc =>
    steps_compactCursor (hf.compactCursors c hc) (hkeys c hc)) ?_
  exact steps_deletedFiles e.deletedFiles rfl

/-- The record of a blob file addition. -/
lemma steps_blobFileAddition {b : BlobFileAddition} (hmethod : Short b.checksumMethod)
    (hvalue : Short b.checksumValue) : Steps round (putTag .kBlobFileAddition ++ b.encodeTo) e
      { e with blobFileAdditions := e.blobFileAdditions ++ [b] } :=
  steps_record (bind_pure (reads_blobFileAddition hmethod hvalue) rfl)

/-- The record of blob file garbage. -/
lemma steps_blobFileGarbage (b : BlobFileGarbage) :
    Steps round (putTag .kBlobFileGarbage ++ b.encodeTo) e
      { e with blobFileGarbages := e.blobFileGarbages ++ [b] } :=
  steps_record (bind_pure (reads_blobFileGarbage b) rfl)

/-- The record of a log that is added. -/
lemma steps_walAddition (w : WalAddition) :
    Steps round (putTag .kWalAddition2 ++ putLengthPrefixed w.encodeTo) e
      { e with walAdditions := e.walAdditions ++ [w] } := by
  rw [← append_nil (putLengthPrefixed _)]
  refine steps_record (bind (reads_orFail (getLengthPrefixed_putLengthPrefixed
    (length_walAddition w))) ?_)
  exact bind_pure (reads_within (reads_walAddition w)) rfl

/-- The record of logs that are deleted. -/
lemma steps_walDeletion (number : U64) (he : e.walDeletion = 0) : Steps round (if number ≠ 0 then
      putTag .kWalDeletion2 ++ putLengthPrefixed (putVarint64 number) else []) e
      { e with walDeletion := number } := by
  refine steps_if (fun _ => steps_record ?_) fun h => by rw [not_not.1 h, ← he]
  have hread : Reads decodeWalDeletion (putVarint64 number) number :=
    reads_orFail (getVarint64_put number)
  rw [← append_nil (putLengthPrefixed _)]
  refine bind (reads_orFail (getLengthPrefixed_putLengthPrefixed (short_putVarint64 number))) ?_
  exact bind_pure (reads_within hread) rfl

/-- The column family, if it is not the default one. -/
lemma steps_columnFamily (v : U32) (he : e.columnFamily = 0) :
    Steps round (if v ≠ 0 then putTag .kColumnFamily ++ putVarint32 v else []) e
      { e with columnFamily := v } :=
  steps_if (fun _ => steps_record (reads_record (getVarint32_put v)))
    fun h => by rw [not_not.1 h, ← he]

/-- The drop of a column family. -/
lemma steps_columnFamilyDrop (b : Bool) (he : e.columnFamilyDrop = false) :
    Steps round (if b then putTag .kColumnFamilyDrop else []) e
      { e with columnFamilyDrop := b } := by
  refine steps_if (fun h => ?_) fun h => by rw [Bool.eq_false_iff.2 h, ← he]
  have hread : Reads (e.decodeTag .kColumnFamilyDrop) [] { e with columnFamilyDrop := true } :=
    reads_pure _
  rw [← append_nil (putTag _), h]
  exact steps_record hread

/-- The low timestamp, if there is one. -/
lemma steps_fullHistoryTsLow {ts : Bytes} (hshort : Short ts) (he : e.fullHistoryTsLow = []) :
    Steps round (if ts ≠ [] then putTag .kFullHistoryTsLow ++ putLengthPrefixed ts else []) e
      { e with fullHistoryTsLow := ts } := by
  refine steps_if (fun h => steps_record ?_) fun h => by rw [not_not.1 h, ← he]
  refine bind_pure (reads_orFail (getLengthPrefixed_putLengthPrefixed hshort)) ?_
  rw [if_neg h]

/-- The flag for timestamps, in a string of one byte. -/
lemma reads_persistUserDefinedTimestamps (b : Bool) :
    Reads (e.decodeTag .kPersistUserDefinedTimestamps) (putLengthPrefixed [char b.toNat])
      { e with persistUserDefinedTimestamps := some b } := by
  refine bind_pure (reads_orFail (getLengthPrefixed_putLengthPrefixed (short_singleton _))) ?_
  cases b <;> rfl

/-- What stands behind the new files. -/
lemma steps_encodeTail (hf : e.Fits) : Steps round e.encodeTail
      { e with
        blobFileAdditions := []
        blobFileGarbages := []
        walAdditions := []
        walDeletion := 0
        columnFamily := 0
        columnFamilyAdd := none
        columnFamilyDrop := false
        atomicGroup := none
        fullHistoryTsLow := []
        persistUserDefinedTimestamps := none } e := by
  rw [encodeTail]
  refine trans (steps_list (fun d l => { d with blobFileAdditions := l }) rfl fun l b hb =>
    steps_blobFileAddition (hf.blobFileAdditions b hb).1 (hf.blobFileAdditions b hb).2) ?_
  refine trans (steps_list (fun d l => { d with blobFileGarbages := l }) rfl fun l b _ =>
    steps_blobFileGarbage b) ?_
  refine trans (steps_list (fun d l => { d with walAdditions := l }) rfl fun l w _ =>
    steps_walAddition w) ?_
  refine trans (steps_walDeletion e.walDeletion rfl) ?_
  refine trans (steps_columnFamily e.columnFamily rfl) ?_
  refine trans (steps_option (fun d x => { d with columnFamilyAdd := x }) rfl fun a h =>
    reads_record (getLengthPrefixed_putLengthPrefixed (hf.columnFamilyAdd a h))) ?_
  refine trans (steps_columnFamilyDrop e.columnFamilyDrop rfl) ?_
  refine trans (steps_option (fun d x => { d with atomicGroup := x }) rfl fun a _ =>
    reads_record (getVarint32_put a)) ?_
  refine trans (steps_fullHistoryTsLow hf.fullHistoryTsLow rfl) ?_
  exact steps_option (fun d x => { d with persistUserDefinedTimestamps := x }) rfl fun b _ =>
    reads_persistUserDefinedTimestamps b

/-- Whatever fits is read back. -/
lemma decodeFrom_encodeTo {tsSz : Option ℕ} (hts : ∀ n, tsSz = some n → n = 0)
    (hkeys : e.KeysValid) (hsum : e.ChecksumsNamed) (henc : e.encodeTo tsSz = some bytes)
    (hf : e.Fits) : decodeFrom bytes = some (.ok e) := by
  rw [encodeTo] at henc
  split_ifs at henc
  obtain ⟨files, hfiles, rfl⟩ := map_eq_some_iff.1 henc
  have hhead := steps_encodeHead hf hkeys.1
  have hnew := hhead.trans (steps_newFiles hts hf.newFiles hsum (fun _ => rfl) hfiles)
  have hall := hnew.trans (steps_encodeTail hf)
  have hend : e.round [] = some (.ok (.leave e, [])) := rfl
  have hloop := loop_of_steps hall hend
  rw [append_nil, append_assoc] at hloop
  rw [decodeFrom, hloop]

end VersionEdit

/-! ## What is read fits -/

/-- A string that is read is short. -/
lemma yields_string (err : Corruption) : Yields (orFail getLengthPrefixed err) Short :=
  yields_orFail fun _ _ _ h => length_lt_of_getLengthPrefixed h

/-- So is a key. -/
lemma yields_key (err : Corruption) : Yields (orFail getInternalKey err) Short := by
  refine yields_orFail fun input key rest h => ?_
  rw [getInternalKey] at h
  cases hstring : getLengthPrefixed input with
  | none => simp [hstring] at h
  | some r =>
    simp only [hstring] at h
    split_ifs at h
    obtain rfl := some.inj h
    exact length_lt_of_getLengthPrefixed hstring

namespace NewFileState

variable {s t : NewFileState}

variable {field : Bytes}

/-- A field with a number keeps what fits. -/
lemma fits_of_number {get : Bytes → Option (U64 × Bytes)} {message : String}
    {set : U64 → NewFileState} (hset : ∀ v, (set v).file.Fits)
    (h : number get message set field = .ok t) : t.file.Fits := by
  rw [number] at h
  cases hget : get field with
  | none => simp [hget] at h
  | some r =>
    simp only [hget] at h
    obtain rfl := ok.inj h
    exact hset r.1

/-- So does a field of one byte. -/
lemma fits_of_byte {message : String} {set : Fin 256 → Except String NewFileState}
    (hset : ∀ b t, set b = .ok t → t.file.Fits) (h : byte message set field = .ok t) :
    t.file.Fits := by
  cases field with
  | nil => exact absurd h (by simp [byte])
  | cons b field =>
    cases field with
    | nil => exact hset b t h
    | cons _ _ => exact absurd h (by simp [byte])

/-- A custom field keeps strings short and temperatures known. -/
lemma fits_setField (hs : s.file.Fits) {tag : NewFileCustomTag} (hfield : Short field)
    (h : s.setField tag field = .ok t) : t.file.Fits := by
  cases tag with
  | kTerminate =>
    obtain rfl := ok.inj h
    exact hs
  | kPathId =>
    refine fits_of_byte (fun b t hb => ?_) h
    split_ifs at hb
    obtain rfl := ok.inj hb
    exact hs
  | kFileChecksum =>
    obtain rfl := ok.inj h
    exact { hs with fileChecksum := hfield }
  | kFileChecksumFuncName =>
    obtain rfl := ok.inj h
    exact { hs with fileChecksumFuncName := hfield }
  | kTemperature =>
    refine fits_of_byte (fun b t hb => ?_) h
    obtain rfl := ok.inj hb
    split_ifs with hcold
    · exact { hs with temperature := hcold }
    · exact hs
  | kUniqueId =>
    rw [setField] at h
    cases hid : decodeUniqueIdBytes field with
    | none => simp [hid] at h
    | some id =>
      simp only [hid] at h
      obtain rfl := ok.inj h
      exact { hs with }
  | kNeedCompaction | kUserDefinedTimestampsPersisted =>
    refine fits_of_byte (fun b t hb => ?_) h
    obtain rfl := ok.inj hb
    exact { hs with }
  | _ =>
    simp only [setField] at h
    refine fits_of_number (fun v => ?_) h
    exact { hs with }

/-- What fits before a round of the loop fits after it. -/
lemma yields_round (hs : s.file.Fits) :
    Yields s.round (Rounds (fun t => t.file.Fits) fun t => t.file.Fits) := by
  refine yields_true.bind fun tag _ => ?_
  split_ifs
  · exact yields_pure hs
  · refine (yields_string _).bind fun field hfield => ?_
    rw [applyField]
    cases ofValue? tag.val with
    | none =>
      simp only
      split_ifs
      · exact yields_fail
      · exact yields_pure hs
    | some t =>
      cases hset : s.setField t field with
      | error message =>
        simp only [hset]
        exact yields_fail
      | ok s' =>
        simp only [hset]
        exact yields_pure (fits_setField hs hfield hset)

end NewFileState

namespace VersionEdit

variable {e : VersionEdit}

/-- A record of short strings keeps what fits. -/
lemma yields_record {α : Type} {P : α → Prop} {get : Bytes → Option (α × Bytes)}
    {message : String} {set : α → VersionEdit}
    (hget : Yields (orFail get (malformed message)) P) (hset : ∀ a, P a → (set a).Fits) :
    Yields (record get message set) Fits :=
  hget.bind fun a ha => yields_pure (hset a ha)

/-- A file that fits may be added. -/
lemma fits_addNewFile (he : e.Fits) {level : Level} {f : FileMetaData} (hf : f.Fits) :
    (addNewFile e level f).Fits := by
  refine { he with newFiles := fun x hx => ?_ }
  rcases mem_append.1 hx with hx | hx
  · exact he.newFiles x hx
  · obtain rfl := mem_singleton.1 hx
    exact hf

/-- A file with short keys fits, all other strings being empty. -/
lemma fits_newFile {smallest largest : Bytes} (hsmallest : Short smallest)
    (hlargest : Short largest) (fd : FileDescriptor) :
    FileMetaData.Fits { fd := fd, smallest := smallest, largest := largest } := by
  refine ⟨hsmallest, hlargest, ?_, ?_, ?_⟩
  · exact Nat.two_pow_pos 32
  · exact show 7 < 2 ^ 32 by decide
  · exact Fin.zero_le _

/-- A new file that is decoded fits. -/
lemma yields_decodeNewFile4From (he : e.Fits) : Yields (decodeNewFile4From e) Fits := by
  refine yields_true.bind fun level _ => yields_true.bind fun number _ =>
    yields_true.bind fun fileSize _ => (yields_key _).bind fun smallest hsmallest =>
    (yields_key _).bind fun largest hlargest => yields_true.bind fun smallestSeqno _ =>
    yields_true.bind fun largestSeqno _ => ?_
  refine (yields_loop (fun _ => NewFileState.yields_round)
    (fits_newFile hsmallest hlargest {})).bind fun s hs => yields_pure ?_
  refine fits_addNewFile (e := { e with minLogNumberToKeep := s.minLog }) { he with } ?_
  exact { hs with }

/-- So does one of an old format. -/
lemma yields_decodeOldNewFile (he : e.Fits) (message : String) (hasPathId hasSeqnos : Bool) :
    Yields (decodeOldNewFile e message hasPathId hasSeqnos) Fits := by
  refine yields_true.bind fun level _ => yields_true.bind fun number _ =>
    yields_true.bind fun pathId _ => yields_true.bind fun fileSize _ =>
    (yields_key _).bind fun smallest hsmallest => (yields_key _).bind fun largest hlargest =>
    yields_true.bind fun smallestSeqno _ => yields_true.bind fun largestSeqno _ => ?_
  exact yields_pure (fits_addNewFile he (fits_newFile hsmallest hlargest _))

/-- The strings of a blob file addition that is decoded are short. -/
lemma yields_blobFileAddition : Yields BlobFileAddition.decodeFrom
    fun b => Short b.checksumMethod ∧ Short b.checksumValue := by
  refine yields_true.bind fun _ _ => yields_true.bind fun _ _ => yields_true.bind fun _ _ =>
    (yields_string _).bind fun method hmethod => (yields_string _).bind fun value hvalue =>
    yields_true.bind fun _ _ => ?_
  exact yields_pure ⟨hmethod, hvalue⟩

/-- Every record keeps what fits, tag by tag. -/
lemma yields_decodeTag (he : e.Fits) (tag : Tag) : Yields (e.decodeTag tag) Fits := by
  have hsome (s : Bytes) (hs : Short s) (s' : Bytes) (h : some s = some s') : Short s' :=
    some.inj h ▸ hs
  cases tag with
  | kDbId =>
    exact yields_record (yields_string _) fun s hs => { he with dbId := hsome s hs }
  | kComparator =>
    exact yields_record (yields_string _) fun s hs => { he with comparator := hsome s hs }
  | kColumnFamilyAdd =>
    exact yields_record (yields_string _) fun s hs => { he with columnFamilyAdd := hsome s hs }
  | kFullHistoryTsLow =>
    refine (yields_string _).bind fun s hs => ?_
    split_ifs
    · exact yields_fail
    · exact yields_pure { he with fullHistoryTsLow := hs }
  | kCompactCursor =>
    refine yields_true.bind fun level _ => (yields_key _).bind fun key hkey => yields_pure ?_
    refine { he with compactCursors := fun c hc => ?_ }
    rcases mem_append.1 hc with hc | hc
    · exact he.compactCursors c hc
    · obtain rfl := mem_singleton.1 hc
      exact hkey
  | kBlobFileAddition | kBlobFileAdditionDeprecated =>
    refine yields_blobFileAddition.bind fun b hb => yields_pure ?_
    refine { he with blobFileAdditions := fun b' hb' => ?_ }
    rcases mem_append.1 hb' with hb' | hb'
    · exact he.blobFileAdditions b' hb'
    · obtain rfl := mem_singleton.1 hb'
      exact hb
  | kNewFile | kNewFile2 | kNewFile3 => exact yields_decodeOldNewFile he _ _ _
  | kNewFile4 => exact yields_decodeNewFile4From he
  | kPersistUserDefinedTimestamps =>
    refine yields_true.bind fun s _ => ?_
    split
    · exact yields_pure { he with }
    · exact yields_fail
  | kColumnFamilyDrop => exact yields_pure { he with }
  | kDeletedFile | kWalAddition2 | kWalDeletion2 =>
    exact yields_true.bind fun _ _ => yields_true.bind fun _ _ =>
      yields_pure { he with }
  | _ =>
    exact yields_true.bind fun _ _ => yields_pure { he with }

/-- A record that is skipped changes nothing. -/
lemma yields_decodeUnknown (he : e.Fits) (tag : U32) : Yields (e.decodeUnknown tag) Fits := by
  rw [decodeUnknown]
  split_ifs
  · refine yields_true.bind fun len _ input e' rest h => ?_
    split_ifs at h
    · exact absurd h (by simp)
    · obtain ⟨rfl, -⟩ := Prod.mk.inj (ok.inj (some.inj h))
      exact he
  · exact yields_fail

/-- What fits before a round of the loop fits after it. -/
lemma yields_round (he : e.Fits) : Yields e.round (Rounds Fits Fits) := by
  intro input r rest h
  rw [round] at h
  cases htag : getVarint32 input with
  | none =>
    simp only [htag] at h
    split_ifs at h
    · obtain ⟨rfl, -⟩ := Prod.mk.inj (ok.inj (some.inj h))
      exact he
    · exact absurd h (by simp)
  | some t =>
    simp only [htag] at h
    have hnext (g : Get Corruption VersionEdit) (hg : Yields g Fits) :
        Yields (g >>= fun e' => pure (Round.next e')) (Rounds (ρ := VersionEdit) Fits Fits) :=
      hg.bind fun e' he' => yields_pure he'
    cases hcase : Tag.ofValue? t.1.val with
    | none =>
      simp only [hcase] at h
      exact hnext _ (yields_decodeUnknown he t.1) _ _ _ h
    | some tag =>
      simp only [hcase] at h
      exact hnext _ (yields_decodeTag he tag) _ _ _ h

/-- Every edit that can be decoded fits. -/
lemma fits_of_decodeFrom {bytes : Bytes} (h : decodeFrom bytes = some (.ok e)) : e.Fits := by
  have hempty : Fits {} := by
    refine ⟨?_, ?_, ?_, ?_, ?_, ?_, ?_⟩
    · simp
    · simp
    · simp
    · simp
    · simp
    · simp
    · exact Nat.two_pow_pos 32
  have hyields := yields_loop (fun _ => yields_round) hempty bytes
  rw [decodeFrom] at h
  cases hloop : loop round {} bytes with
  | none => simp [hloop] at h
  | some r =>
    cases r with
    | error err => simp [hloop] at h
    | ok r =>
      simp only [hloop] at h
      obtain rfl := ok.inj (some.inj h)
      exact hyields r.1 r.2 hloop

/-- An edit without user-defined timestamps, with valid keys and named checksums, is read back from
what `EncodeTo` writes exactly when all its strings are shorter than 4 GiB and the temperatures of
its new files are known. -/
theorem decodeFrom_encodeTo_iff (e : VersionEdit) {tsSz : Option ℕ} {bytes : Bytes}
    (hts : ∀ n, tsSz = some n → n = 0) (hkeys : e.KeysValid) (hsum : e.ChecksumsNamed)
    (henc : e.encodeTo tsSz = some bytes) : decodeFrom bytes = some (.ok e) ↔ e.Fits :=
  ⟨fits_of_decodeFrom, decodeFrom_encodeTo hts hkeys hsum henc⟩

/-- A file at level 6 in the third path, whose smallest and largest key is the first version of the
empty user key. -/
def oneNewFile : VersionEdit where
  minLogNumberToKeep := some 9
  newFiles := [(⟨6, by decide⟩, {
    fd := fileDescriptor 17 2 4096 1 1
    smallest := [1, 1, 0, 0, 0, 0, 0, 0]
    largest := [1, 1, 0, 0, 0, 0, 0, 0]
    temperature := kCold
    epochNumber := 3 })]

theorem decodeFrom_encodeTo_iff_oneNewFile : ∃ bytes, oneNewFile.encodeTo (some 0) = some bytes ∧
      (decodeFrom bytes = some (.ok oneNewFile) ↔ oneNewFile.Fits) := by
  have hkeys : oneNewFile.KeysValid := by
    refine ⟨by simp [oneNewFile], fun x hx => ?_⟩
    obtain rfl := mem_singleton.1 hx
    exact ⟨by decide, by decide⟩
  have hsum : oneNewFile.ChecksumsNamed := by
    intro x hx _
    obtain rfl := mem_singleton.1 hx
    rfl
  have hts : ∀ n, some 0 = some n → n = 0 := fun n h => (some.inj h).symm
  exact ⟨_, rfl, decodeFrom_encodeTo_iff oneNewFile hts hkeys hsum rfl⟩

/-- The name of a column family of 4 GiB is written with the length 0. -/
theorem long_name_not_read_back : ∃ (e : VersionEdit) (bytes : Bytes),
    e.KeysValid ∧ e.ChecksumsNamed ∧ e.encodeTo (some 0) = some bytes ∧
      decodeFrom bytes ≠ some (.ok e) := by
  refine ⟨{ columnFamilyAdd := some (replicate (2 ^ 32) 0) }, _, ⟨by simp, by simp⟩,
    fun x hx => absurd hx (by simp), rfl, fun h => ?_⟩
  have hshort := (fits_of_decodeFrom h).columnFamilyAdd _ rfl
  rw [Short, length_replicate] at hshort
  exact lt_irrefl _ hshort

end VersionEdit

end BucketLSM.EditCodec
