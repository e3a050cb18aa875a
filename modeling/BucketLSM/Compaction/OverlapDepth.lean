import BucketLSM.Compaction.Registration

/-!
# The overlap depth of level 0

`CalculateMaxOverlappingGroupSize` sweeps over the ends of the ranges of the level-0 files, and
finds the greatest number of files that hold one key. The result is stored when a version is prepared, and `ComputeCompactionScore` divides the
stored value by the trigger whenever compactions have been registered or released since.
-/

namespace BucketLSM

open List FileMetaData

variable {K : Type} [LinearOrder K]

/-- The number of files that are not being compacted and whose range contains the key. -/
def overlapDepth (l0Files : List (FileMetaData K)) (k : K) : ℕ :=
  l0Files.countP fun f =>
    !f.beingCompacted && decide (f.smallest.userKey ≤ k ∧ k ≤ f.largest.userKey)

/-! ### The sweep over sorted events -/

variable (events : List (Event K))

/-- The change of the depth over some events. -/
def balance : ℤ :=
  (events.map fun e => if (ofLex e).2 then -1 else 1).sum

/-- The change of the depth up to a key: its own STARTs are past, its ENDs are not. -/
def balanceUpTo (k : K) : ℤ :=
  balance (events.filter fun e => e ≤ toLex (k, false))

lemma balanceUpTo_cons (e : Event K) (events : List (Event K)) (k : K) :
    balanceUpTo (e :: events) k = (if e ≤ toLex (k, false) then if (ofLex e).2 then -1 else 1
      else 0) + balanceUpTo events k := by
  unfold balanceUpTo balance
  by_cases h : e ≤ toLex (k, false) <;> simp [h]

/-- From events at or after a START of the key, only its other STARTs count. -/
lemma balanceUpTo_nonneg {events : List (Event K)} {k : K}
    (h : ∀ e ∈ events, toLex (k, false) ≤ e) : 0 ≤ balanceUpTo events k := by
  refine sum_nonneg fun x hx => ?_
  obtain ⟨e, he, rfl⟩ := mem_map.1 hx
  obtain ⟨hmem, hle⟩ := mem_filter.1 he
  rw [le_antisymm (of_decide_eq_true hle) (h e hmem)]
  simp

lemma balanceUpTo_eq_zero {events : List (Event K)} {k : K}
    (h : ∀ e ∈ events, toLex (k, false) < e) : balanceUpTo events k = 0 := by
  unfold balanceUpTo
  rw [filter_eq_nil_iff.2 fun e he => by simpa using h e he]
  rfl

lemma balanceUpTo_perm {events events' : List (Event K)} (h : events.Perm events') (k : K) :
    balanceUpTo events k = balanceUpTo events' k :=
  ((h.filter _).map _).sum_eq

omit [LinearOrder K] in
lemma le_sweep (cur maxDepth : ℤ) : maxDepth ≤ sweep events cur maxDepth := by
  induction events generalizing cur maxDepth with
  | nil => exact le_rfl
  | cons e events ih =>
    unfold sweep
    split_ifs
    · exact ih _ _
    · exact (le_max_left _ _).trans (ih _ _)

lemma balanceUpTo_le_sweep {events : List (Event K)} (hsorted : events.Pairwise (· ≤ ·)) (k : K)
    {cur maxDepth : ℤ} (hcur : cur ≤ maxDepth) :
    cur + balanceUpTo events k ≤ sweep events cur maxDepth := by
  induction events generalizing cur maxDepth with
  | nil => simpa [balanceUpTo, balance, sweep] using hcur
  | cons e events ih =>
    obtain ⟨hhead, htail⟩ := pairwise_cons.1 hsorted
    by_cases he : e ≤ toLex (k, false)
    · rw [balanceUpTo_cons, if_pos he]
      unfold sweep
      split_ifs
      · have := ih htail (show cur - 1 ≤ maxDepth by omega)
        omega
      · have := ih htail (le_max_right maxDepth (cur + 1))
        omega
    · -- nothing from here on is up to the key
      have hlt : ∀ e' ∈ e :: events, toLex (k, false) < e' := by
        intro e' he'
        rcases mem_cons.1 he' with rfl | he'
        · exact not_le.1 he
        · exact (not_le.1 he).trans_le (hhead _ he')
      rw [balanceUpTo_eq_zero hlt, add_zero]
      exact hcur.trans (le_sweep _ _ _)

/-- The greatest depth is the one at the key of a START. -/
lemma sweep_attained {events : List (Event K)} (hsorted : events.Pairwise (· ≤ ·))
    (cur maxDepth : ℤ) : sweep events cur maxDepth = maxDepth ∨
      ∃ k, sweep events cur maxDepth ≤ cur + balanceUpTo events k := by
  induction events generalizing cur maxDepth with
  | nil => exact .inl rfl
  | cons e events ih =>
    obtain ⟨hhead, htail⟩ := pairwise_cons.1 hsorted
    unfold sweep
    split_ifs with hend
    · refine (ih htail (cur - 1) maxDepth).imp_right fun ⟨k, hk⟩ => ⟨k, hk.trans ?_⟩
      rw [balanceUpTo_cons]
      split_ifs <;> omega
    · have he : e = toLex ((ofLex e).1, false) := by
        rw [← Bool.eq_false_of_not_eq_true hend]
        rfl
      -- the START itself, the first of those at its key
      have hstart : cur + 1 ≤ cur + balanceUpTo (e :: events) (ofLex e).1 := by
        rw [balanceUpTo_cons, if_pos he.le, if_neg hend]
        have := balanceUpTo_nonneg (he ▸ hhead)
        omega
      rcases ih htail (cur + 1) (max maxDepth (cur + 1)) with hmax | ⟨k, hk⟩
      · rcases max_choice maxDepth (cur + 1) with h | h
        · exact .inl (hmax.trans h)
        · exact .inr ⟨_, (hmax.trans h).le.trans hstart⟩
      · by_cases hle : e ≤ toLex (k, false)
        · refine .inr ⟨k, hk.trans ?_⟩
          rw [balanceUpTo_cons, if_pos hle, if_neg hend]
          omega
        · rw [balanceUpTo_eq_zero fun e' he' => (not_le.1 hle).trans_le (hhead _ he')] at hk
          exact .inr ⟨(ofLex e).1, by omega⟩

/-! ### The depth -/

lemma balanceUpTo_overlapEvents (l0Files : List (FileMetaData K)) (k : K) :
    balanceUpTo (overlapEvents l0Files) k = overlapDepth l0Files k := by
  induction l0Files with
  | nil => rfl
  | cons f l0Files ih =>
    have hle := f.userKey_le
    unfold overlapEvents overlapDepth at ih ⊢
    rw [countP_cons, filter_cons]
    cases f.beingCompacted with
    | true => simpa using ih
    | false =>
      -- a START counts from its key on, an END only after it
      have hstart : toLex (f.smallest.userKey, false) ≤ toLex (k, false) ↔
          f.smallest.userKey ≤ k := by
        simp only [Prod.Lex.toLex_le_toLex, le_refl, and_true, ← le_iff_lt_or_eq]
      have hend : toLex (f.largest.userKey, true) ≤ toLex (k, false) ↔
          f.largest.userKey < k := by simp [Prod.Lex.toLex_le_toLex]
      simp only [Bool.not_false, if_true, flatMap_cons, cons_append, nil_append,
        balanceUpTo_cons, ih, hstart, hend, ofLex_toLex, Bool.true_and, decide_eq_true_eq]
      grind

section

variable (sh : Shuffle) (l0Files : List (FileMetaData K))

include sh l0Files

/-- In each of its branches the function is a sweep over the sorted events. -/
lemma calculateMaxOverlappingGroupSize_eq :
    ∃ events, events.Perm (overlapEvents l0Files) ∧ events.Pairwise (· ≤ ·) ∧
      calculateMaxOverlappingGroupSize sh l0Files = sweep events 0 0 := by
  unfold calculateMaxOverlappingGroupSize
  split
  · exact ⟨[], Perm.refl _, Pairwise.nil, rfl⟩
  case h_2 f =>
    refine ⟨overlapEvents [f], Perm.refl _, ?_⟩
    cases hf : f.beingCompacted with
    | true => simp [overlapEvents, hf, sweep]
    | false => simpa [overlapEvents, hf, sweep, Prod.Lex.toLex_le_toLex] using f.userKey_le.lt_or_eq
  · split_ifs with hall
    · refine ⟨[], ?_, Pairwise.nil, rfl⟩
      have := all_eq_true.1 hall
      rw [overlapEvents, filter_eq_nil_iff.2 fun f hf => by simpa using this f hf]
      rfl
    · refine ⟨_, ?_, sh.pairwise_stdSort id _, rfl⟩
      exact (perm_insertionSort _ _).trans (sh.perm _)

lemma calculateMaxOverlappingGroupSize_nonneg :
    0 ≤ calculateMaxOverlappingGroupSize sh l0Files := by
  obtain ⟨events, -, -, heq⟩ := calculateMaxOverlappingGroupSize_eq sh l0Files
  exact heq ▸ le_sweep events 0 0

lemma overlapDepth_le (k : K) :
    overlapDepth l0Files k ≤ calculateMaxOverlappingGroupSize sh l0Files := by
  obtain ⟨events, hperm, hsorted, heq⟩ := calculateMaxOverlappingGroupSize_eq sh l0Files
  have := balanceUpTo_le_sweep hsorted k (le_refl 0)
  rwa [balanceUpTo_perm hperm, balanceUpTo_overlapEvents, zero_add, ← heq] at this

lemma overlapDepth_attained : calculateMaxOverlappingGroupSize sh l0Files = 0 ∨
      ∃ k, calculateMaxOverlappingGroupSize sh l0Files ≤ overlapDepth l0Files k := by
  obtain ⟨events, hperm, hsorted, heq⟩ := calculateMaxOverlappingGroupSize_eq sh l0Files
  have := sweep_attained hsorted 0 0
  simpa only [balanceUpTo_perm hperm, balanceUpTo_overlapEvents, zero_add, ← heq] using this

end

/-- The result is the greatest number of files that are not being compacted and contain one
user key, or 0 without such files. -/
theorem calculateMaxOverlappingGroupSize_isGreatest (sh : Shuffle)
    (l0Files : List (FileMetaData K)) :
    IsGreatest (insert 0 (Set.range fun k => (overlapDepth l0Files k : ℤ)))
      (calculateMaxOverlappingGroupSize sh l0Files) := by
  have hle := overlapDepth_le sh l0Files
  constructor
  · rcases overlapDepth_attained sh l0Files with h | ⟨k, hk⟩
    · exact .inl h
    · exact .inr ⟨k, le_antisymm (hle k) hk⟩
  · intro n hn
    rcases hn with rfl | ⟨k, rfl⟩
    · exact calculateMaxOverlappingGroupSize_nonneg sh l0Files
    · exact hle k

/-! ### The score -/

/-- Level 0 of a version with the flags as they are now, and `l0_delay_trigger_count_`. -/
structure L0Storage (K : Type) [LinearOrder K] where
  files : List (FileMetaData K)
  l0DelayTriggerCount : ℤ

/-- `MarkFilesBeingCompacted` on the input files, by `RegisterCompaction` or
`ReleaseCompactionFiles`. The score is computed again after each. -/
structure FlagChange where
  numbers : List ℕ
  markAs : Bool

namespace L0Storage

/-- `CalculateBaseBytes` in bucket mode, called when the version is prepared. -/
def calculateBaseBytes (sh : Shuffle) (files : List (FileMetaData K)) : L0Storage K :=
  ⟨files, calculateMaxOverlappingGroupSize sh files⟩

variable (s : L0Storage K)

/-- The flags change, the stored count does not. -/
def change (c : FlagChange) : L0Storage K :=
  { s with files := s.files.map (FileMetaData.mark c.numbers c.markAs) }

/-- `ComputeCompactionScore` gives level 0 a score of at least 1. The quotient of two `int`s
as doubles is at least 1 when the exact one is; a zero divisor gives infinity, or NaN if the
count is zero. -/
def ScoreReachesOne (level0FileNumCompactionTrigger : ℤ) : Prop :=
  if level0FileNumCompactionTrigger = 0 then 0 < s.l0DelayTriggerCount
  else 1 ≤ (s.l0DelayTriggerCount : ℚ) / level0FileNumCompactionTrigger

/-- A score of at least 1 comes from a key that enough files contain which are not being
compacted now. -/
def ScoreJustified : Prop :=
  ∀ trigger : ℤ, s.ScoreReachesOne trigger → ∃ k, trigger ≤ overlapDepth s.files k

/-- The stored count is no more than the depth at some key. -/
def CountCurrent : Prop :=
  0 ≤ s.l0DelayTriggerCount ∧
    (s.l0DelayTriggerCount = 0 ∨ ∃ k, s.l0DelayTriggerCount ≤ overlapDepth s.files k)

lemma CountCurrent.scoreJustified {s : L0Storage K} (h : s.CountCurrent) : s.ScoreJustified := by
  intro trigger hscore
  obtain ⟨hnonneg, hcount⟩ := h
  have hpos : 0 < s.l0DelayTriggerCount ∧ trigger ≤ s.l0DelayTriggerCount := by
    unfold ScoreReachesOne at hscore
    split_ifs at hscore with h0
    · exact ⟨hscore, h0 ▸ hscore.le⟩
    · rcases lt_or_gt_of_ne h0 with hneg | htrigger
      · have := div_nonpos_of_nonneg_of_nonpos (Int.cast_nonneg (R := ℚ) hnonneg)
          (Int.cast_nonpos.2 hneg.le)
        linarith
      · rw [one_le_div (Int.cast_pos.2 htrigger), Int.cast_le] at hscore
        omega
  rcases hcount with hzero | ⟨k, hk⟩
  · omega
  · exact ⟨k, hpos.2.trans hk⟩

/-- A registered compaction takes none of the files; a released one may have had any. -/
def Spares (files : List (FileMetaData K)) (c : FlagChange) : Prop :=
  c.markAs = true → ∀ f ∈ files, f.number ∉ c.numbers

lemma overlapDepth_le_release (files : List (FileMetaData K)) (numbers : List ℕ) (k : K) :
    overlapDepth files k ≤ overlapDepth (files.map (mark numbers false)) k := by
  unfold overlapDepth
  rw [countP_map]
  refine countP_mono_left fun f _ hf => ?_
  have hfree : f.beingCompacted = false := by simpa using (Bool.and_eq_true_iff.1 hf).1
  rwa [Function.comp_apply, mark_false hfree]

lemma CountCurrent.change {s : L0Storage K} (h : s.CountCurrent) {c : FlagChange}
    (hc : Spares s.files c) : (s.change c).CountCurrent := by
  refine ⟨h.1, h.2.imp_right fun ⟨k, hk⟩ => ⟨k, hk.trans ?_⟩⟩
  unfold L0Storage.change
  cases hflag : c.markAs with
  | true =>
    rw [map_congr_left fun f hf => mark_of_notMem (hc hflag f hf), map_id']
  | false => exact_mod_cast overlapDepth_le_release s.files c.numbers k

lemma CountCurrent.run {changes : List FlagChange} {s : L0Storage K} (h : s.CountCurrent)
    (hspares : ∀ c ∈ changes, Spares s.files c) :
    (changes.foldl L0Storage.change s).CountCurrent := by
  induction changes generalizing s with
  | nil => exact h
  | cons c changes ih =>
    refine ih (h.change (hspares c (by simp))) fun c' hc' hflag => ?_
    simpa [L0Storage.change] using hspares c' (by simp [hc']) hflag

/-- While no compaction of level-0 files has been registered since the version was prepared,
a score of at least 1 is justified, whatever has been released. -/
theorem scoreJustified_of_spares (sh : Shuffle) (files : List (FileMetaData K))
    (changes : List FlagChange) (hspares : ∀ c ∈ changes, Spares files c) :
    (changes.foldl change (calculateBaseBytes sh files)).ScoreJustified := by
  have hfresh : (calculateBaseBytes sh files).CountCurrent :=
    ⟨calculateMaxOverlappingGroupSize_nonneg sh files, overlapDepth_attained sh files⟩
  exact (hfresh.run hspares).scoreJustified

/-- Two versions of one key in level 0. -/
def twoVersions : List (FileMetaData Slice) := [valueFile 3 2 [97] 2, valueFile 2 1 [97] 1]

theorem scoreJustified_after_release : ([⟨[7], true⟩, ⟨[2], false⟩].foldl change
      (calculateBaseBytes ⟨fun l => l, fun l => .refl l⟩ twoVersions)).ScoreJustified :=
  scoreJustified_of_spares _ _ _ fun c hc => by
    rcases mem_cons.1 hc with rfl | hc
    · exact fun _ => by decide
    · rw [mem_singleton.1 hc]
      exact fun h => absurd h (by decide)

/-- With both files in a registered compaction the count is still 2. -/
theorem not_scoreJustified_after_register :
    ¬ ∀ (sh : Shuffle) (files : List (FileMetaData Slice)) (changes : List FlagChange),
      (changes.foldl change (calculateBaseBytes sh files)).ScoreJustified := by
  intro h
  have hcount := overlapDepth_le ⟨fun l => l, fun l => .refl l⟩ twoVersions [97]
  rw [show overlapDepth twoVersions [97] = 2 by decide] at hcount
  obtain ⟨k, hk⟩ := h ⟨fun l => l, fun l => .refl l⟩ twoVersions [⟨[2, 3], true⟩] 2 (by
    unfold ScoreReachesOne
    rw [if_neg (by decide), one_le_div (by decide)]
    exact_mod_cast hcount)
  rw [overlapDepth, countP_eq_zero.2 fun f hf => ?_] at hk
  · exact absurd hk (by decide)
  · have : f.beingCompacted = true := by
      revert f
      decide
    simp [this]

end L0Storage

end BucketLSM
