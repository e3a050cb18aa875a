import Mathlib

/-!
# Entries of the commit cache

The commit cache of `WritePreparedTxnDB` is an array that the low bits of a prepare sequence number
index. An entry packs the other bits of the prepare sequence number and the distance to the commit
sequence number into one word. With the bits the index supplies, no bit of either is lost
(`parse_construct`).

For an index of more than 55 bits the format shifts by the width of a word or more, which C++ leaves
undefined. The shifts here take their count modulo the width then, as the processor does.
-/

namespace BucketLSM

/-- `CommitEntry`. -/
@[ext]
structure CommitEntry where
  prepSeq : UInt64
  commitSeq : UInt64
deriving DecidableEq

/-- `CommitEntry64bFormat`, whose other fields follow from `INDEX_BITS`. -/
structure CommitEntry64bFormat where
  indexBits : UInt64

/-- `CommitEntry64b`, the word `rep_`. -/
structure CommitEntry64b where
  rep : UInt64
deriving DecidableEq

namespace CommitEntry64bFormat

variable (format : CommitEntry64bFormat)

/-- `PAD_BITS`, the high bits of a sequence number that are not used. -/
def padBits : UInt64 := 8

/-- `PREP_BITS`. -/
def prepBits : UInt64 := 64 - padBits - format.indexBits

/-- `COMMIT_BITS`. -/
def commitBits : UInt64 := 64 - format.prepBits

/-- `COMMIT_FILTER`. -/
def commitFilter : UInt64 := (1 <<< format.commitBits) - 1

/-- `DELTA_UPPERBOUND`. -/
def deltaUpperbound : UInt64 := 1 <<< format.commitBits

/-- The index of a prepare sequence number in the commit cache. -/
def index (ps : UInt64) : UInt64 := .ofNat (ps.toNat % 2 ^ format.indexBits.toNat)

/-- The pairs of sequence numbers that the format is for. -/
structure Fits (entry : CommitEntry) : Prop where
  prep_lt : entry.prepSeq.toNat < 2 ^ 56
  prep_le : entry.prepSeq.toNat ≤ entry.commitSeq.toNat
  delta_lt : entry.commitSeq.toNat - entry.prepSeq.toNat + 1 < format.deltaUpperbound.toNat

/-- How far the format shifts for the bits of the distance. -/
def commitShift : ℕ := format.commitBits.toNat % 64

lemma commitShift_lt : format.commitShift < 64 := Nat.mod_lt _ (by decide)

/-- The index supplies the bits of the prepare sequence number that the distance takes. -/
lemma commitShift_le : format.commitShift ≤ format.indexBits.toNat + 8 := by
  have hbits : format.commitBits.toNat = (format.indexBits.toNat + 8) % 2 ^ 64 := by
    have hlt := format.indexBits.toNat_lt
    simp only [commitBits, prepBits, padBits, UInt64.toNat_sub, UInt64.reduceToNat]
    omega
  rw [commitShift, hbits]
  omega

lemma toNat_deltaUpperbound : format.deltaUpperbound.toNat = 2 ^ format.commitShift := by
  have hlt : 2 ^ format.commitShift < 2 ^ 64 :=
    Nat.pow_lt_pow_right (by decide) format.commitShift_lt
  rw [deltaUpperbound, UInt64.toNat_shiftLeft, UInt64.toNat_one, Nat.one_shiftLeft]
  exact Nat.mod_eq_of_lt hlt

/-- The filter has the bits of the distance. -/
lemma commitFilter_bit (k : ℕ) :
    format.commitFilter.toBitVec.getLsbD k = decide (k < format.commitShift) := by
  have hnat : format.commitFilter.toNat = 2 ^ format.commitShift - 1 := by
    have hone : 1 ≤ 2 ^ format.commitShift := Nat.one_le_two_pow
    have hle : (1 : UInt64) ≤ format.deltaUpperbound := by
      rw [UInt64.le_iff_toNat_le, toNat_deltaUpperbound]
      exact hone
    have hfilter : format.commitFilter = format.deltaUpperbound - 1 := rfl
    rw [hfilter, UInt64.toNat_sub_of_le _ _ hle, toNat_deltaUpperbound]
    rfl
  rw [BitVec.getLsbD, UInt64.toNat_toBitVec, hnat, Nat.testBit_two_pow_sub_one]

end CommitEntry64bFormat

namespace CommitEntry64b

open CommitEntry64bFormat

/-- The constructor of `CommitEntry64b`. The result `none` is the `runtime_error` it throws. -/
def construct (ps cs : UInt64) (format : CommitEntry64bFormat) : Option CommitEntry64b :=
  let delta := cs - ps + 1
  if format.deltaUpperbound ≤ delta then none
  else some ⟨(ps <<< padBits) &&& ~~~format.commitFilter ||| delta⟩

/-- `Parse`. The result `none` is an empty entry. -/
def parse (e : CommitEntry64b) (indexedSeq : UInt64) (format : CommitEntry64bFormat) :
    Option CommitEntry :=
  let delta := e.rep &&& format.commitFilter
  if delta = 0 then none
  else
    let prepUp := (e.rep &&& ~~~format.commitFilter) >>> padBits
    let prepSeq := prepUp ||| indexedSeq
    some ⟨prepSeq, prepSeq + delta - 1⟩

variable {format : CommitEntry64bFormat} {ps cs delta : UInt64}

/-- The bits of a distance below the bound are those of the filter. -/
lemma delta_bit (hdelta : delta.toNat < format.deltaUpperbound.toNat) {k : ℕ}
    (hk : format.commitShift ≤ k) : delta.toBitVec.getLsbD k = false := by
  rw [toNat_deltaUpperbound] at hdelta
  exact Nat.testBit_lt_two_pow (hdelta.trans_le (Nat.pow_le_pow_right (by decide) hk))

lemma and_commitFilter (hdelta : delta.toNat < format.deltaUpperbound.toNat) (high : UInt64) :
    (high &&& ~~~format.commitFilter ||| delta) &&& format.commitFilter = delta := by
  apply UInt64.toBitVec_inj.1
  refine BitVec.eq_of_getLsbD_eq fun k _ => ?_
  by_cases hlow : k < format.commitShift
  · simp [commitFilter_bit, hlow]
  · simp [commitFilter_bit, hlow, delta_bit hdelta (not_lt.1 hlow)]

/-- A bit of the prepare sequence number is in the word or in the index. -/
lemma prepUp_or_index (hps : ps.toNat < 2 ^ 56)
    (hdelta : delta.toNat < format.deltaUpperbound.toNat) :
    ((ps <<< padBits &&& ~~~format.commitFilter ||| delta) &&& ~~~format.commitFilter) >>> padBits
      ||| format.index ps = ps := by
  have hpad : padBits.toNat % 64 = 8 := rfl
  apply UInt64.toBitVec_inj.1
  refine BitVec.eq_of_getLsbD_eq fun k _ => ?_
  have hindex : (format.index ps).toBitVec.getLsbD k
      = (decide (k < format.indexBits.toNat) && ps.toBitVec.getLsbD k) := by
    have hlt : ps.toNat % 2 ^ format.indexBits.toNat < 2 ^ 64 :=
      (Nat.mod_le _ _).trans_lt ps.toNat_lt
    rw [BitVec.getLsbD, UInt64.toNat_toBitVec, index, UInt64.toNat_ofNat_of_lt' hlt,
      Nat.testBit_mod_two_pow]
    rfl
  by_cases htop : 56 ≤ k
  · have hzero : ps.toBitVec.getLsbD k = false :=
      Nat.testBit_lt_two_pow (hps.trans_le (Nat.pow_le_pow_right (by decide) htop))
    have hout : ¬ 8 + k < 64 := by omega
    simp [hindex, hzero, hpad, hout]
  have hin : 8 + k < 64 := by omega
  by_cases hword : format.commitShift ≤ 8 + k
  · simp [hindex, hpad, hin, commitFilter_bit, not_lt.2 hword, delta_bit hdelta hword,
      -BitVec.getLsbD_eq_getElem]
  · have hlow : k < format.indexBits.toNat := by
      have := format.commitShift_le
      omega
    simp [hindex, hpad, hin, commitFilter_bit, not_le.1 hword, hlow]

lemma toNat_delta {entry : CommitEntry} (h : format.Fits entry) :
    (entry.commitSeq - entry.prepSeq + 1).toNat
      = entry.commitSeq.toNat - entry.prepSeq.toNat + 1 := by
  have hbound := h.delta_lt.trans format.deltaUpperbound.toNat_lt
  rw [UInt64.toNat_add, UInt64.toNat_sub_of_le _ _ (UInt64.le_iff_toNat_le.2 h.prep_le)]
  exact Nat.mod_eq_of_lt hbound

/-- An entry is constructed and read back, and entries of one index with the same word are equal. -/
theorem parse_construct (entry : CommitEntry) (h : format.Fits entry) :
    ∃ e, construct entry.prepSeq entry.commitSeq format = some e ∧
      e.parse (format.index entry.prepSeq) format = some entry ∧
      ∀ other, format.Fits other → format.index other.prepSeq = format.index entry.prepSeq →
        construct other.prepSeq other.commitSeq format = some e → other = entry := by
  -- the word of an entry, read at its index, gives the entry
  have hread : ∀ entry, format.Fits entry → ∃ e,
      construct entry.prepSeq entry.commitSeq format = some e ∧
      e.parse (format.index entry.prepSeq) format = some entry := by
    intro entry h
    have hdelta : (entry.commitSeq - entry.prepSeq + 1).toNat < format.deltaUpperbound.toNat :=
      toNat_delta h ▸ h.delta_lt
    have hne : entry.commitSeq - entry.prepSeq + 1 ≠ 0 := fun h0 => by
      have := toNat_delta h
      rw [h0] at this
      simp at this
    have hsum : entry.prepSeq + (entry.commitSeq - entry.prepSeq + 1) - 1 = entry.commitSeq := by
      grind
    refine ⟨_, if_neg (by rwa [UInt64.le_iff_toNat_le, not_le]), ?_⟩
    simp only [parse, and_commitFilter hdelta, prepUp_or_index h.prep_lt hdelta, hne, hsum,
      if_false]
  obtain ⟨e, he, hparse⟩ := hread entry h
  refine ⟨e, he, hparse, fun other hother hindex hword => ?_⟩
  obtain ⟨e', he', hparse'⟩ := hread other hother
  obtain rfl : e' = e := Option.some.inj (he'.symm.trans hword)
  rw [hindex] at hparse'
  exact Option.some.inj (hparse'.symm.trans hparse)

theorem parse_construct_seven :
    (⟨23⟩ : CommitEntry64bFormat).Fits ⟨7, 9⟩ ∧
    ∃ e, construct 7 9 ⟨23⟩ = some e ∧ e.parse 7 ⟨23⟩ = some ⟨7, 9⟩ := by
  have h : (⟨23⟩ : CommitEntry64bFormat).Fits ⟨7, 9⟩ := ⟨by decide, by decide, by decide⟩
  obtain ⟨e, he, hparse, -⟩ := parse_construct ⟨7, 9⟩ h
  exact ⟨h, e, he, hparse⟩

end CommitEntry64b

end BucketLSM
