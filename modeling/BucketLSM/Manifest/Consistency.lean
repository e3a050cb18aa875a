import Mathlib
import BucketLSM.Format

/-!
# The consistency checks of a version

A version holds the table files of each level and the blob files they refer to.
`VersionBuilder::Rep::CheckConsistencyDetails` (`db/version_builder.cc`) goes through the files
of each level in order and compares every file with the one before it; on the way it collects
which table files name which blob file, and compares this with the links the blob files keep.
-/

namespace BucketLSM.Manifest

open List

variable {K : Type}

/-- What versions read of a table file. -/
structure FileMetaData (K : Type) where
  number : ℕ
  smallest : InternalKey K
  largest : InternalKey K
  smallestSeqno : ℕ
  largestSeqno : ℕ
  epochNumber : ℕ
  oldestBlobFileNumber : ℕ
deriving DecidableEq

/-- `kUnknownEpochNumber`. -/
def unknownEpochNumber : ℕ := 0

/-- `kInvalidBlobFileNumber`. -/
def invalidBlobFileNumber : ℕ := 0

/-- A blob file, with the table files whose oldest blob file it is. -/
structure BlobFileMetaData where
  blobFileNumber : ℕ
  totalBlobCount : UInt64
  totalBlobBytes : UInt64
  linkedSsts : Finset ℕ := ∅
  garbageBlobCount : UInt64 := 0
  garbageBlobBytes : UInt64 := 0
deriving DecidableEq

inductive EpochNumberRequirement
  | mightMissing
  | mustPresent
deriving DecidableEq

/-- What a version stores: the files of each level, in order, and the blob files. -/
structure VersionStorageInfo (K : Type) where
  files : List (List (FileMetaData K))
  blobFiles : List BlobFileMetaData := []
  epochNumberRequirement : EpochNumberRequirement := .mustPresent
  forceConsistencyChecks : Bool := true
deriving DecidableEq

open Manifest.VersionStorageInfo

namespace VersionStorageInfo

def numLevels (v : VersionStorageInfo K) : ℕ := v.files.length

def levelFiles (v : VersionStorageInfo K) (level : ℕ) : List (FileMetaData K) :=
  v.files.getD level []

end VersionStorageInfo

/-! ## The orders of the files in a level -/

/-- `NewestFirstBySeqNo`. -/
def newestFirstBySeqNo (lhs rhs : FileMetaData K) : Bool :=
  if lhs.largestSeqno ≠ rhs.largestSeqno then lhs.largestSeqno > rhs.largestSeqno
  else if lhs.smallestSeqno ≠ rhs.smallestSeqno then lhs.smallestSeqno > rhs.smallestSeqno
  else lhs.number > rhs.number

/-- `NewestFirstByEpochNumber`. -/
def newestFirstByEpochNumber (lhs rhs : FileMetaData K) : Bool :=
  if lhs.epochNumber ≠ rhs.epochNumber then lhs.epochNumber > rhs.epochNumber
  else newestFirstBySeqNo lhs rhs

variable [LinearOrder K]

/-- `BySmallestKey`. -/
def bySmallestKey (lhs rhs : FileMetaData K) : Bool :=
  if lhs.smallest ≠ rhs.smallest then lhs.smallest < rhs.smallest else lhs.number < rhs.number

/-! ## The checks -/

/-- The links to blob files, as the table files have them. -/
abbrev ExpectedLinkedSsts := ℕ → Finset ℕ

/-- `UpdateExpectedLinkedSsts`. -/
def updateExpectedLinkedSsts (f : FileMetaData K) (expected : ExpectedLinkedSsts) :
    ExpectedLinkedSsts :=
  if f.oldestBlobFileNumber = invalidBlobFileNumber then expected
  else Function.update expected f.oldestBlobFileNumber
    (insert f.number (expected f.oldestBlobFileNumber))

/-- The loop of `CheckConsistencyDetailsForLevel`, from the second file on. -/
def checkNeighbours (checker : FileMetaData K → FileMetaData K → Status) (lhs : FileMetaData K) :
    List (FileMetaData K) → ExpectedLinkedSsts → Status × ExpectedLinkedSsts
  | [], expected => (.ok, expected)
  | rhs :: rest, expected =>
    match checker lhs rhs with
    | .ok => checkNeighbours checker rhs rest (updateExpectedLinkedSsts rhs expected)
    | failed => (failed, updateExpectedLinkedSsts rhs expected)

/-- `CheckConsistencyDetailsForLevel`. -/
def checkConsistencyDetailsForLevel (checker : FileMetaData K → FileMetaData K → Status) :
    List (FileMetaData K) → ExpectedLinkedSsts → Status × ExpectedLinkedSsts
  | [], expected => (.ok, expected)
  | f :: rest, expected => checkNeighbours checker f rest (updateExpectedLinkedSsts f expected)

/-- `range_overlapped` of `l0_checker`. -/
def rangeOverlapped (lhs rhs : FileMetaData K) : Bool :=
  lhs.smallest ≤ rhs.largest && rhs.smallest ≤ lhs.largest

/-- `l0_checker`. -/
def l0Checker (requirement : EpochNumberRequirement) (lhs rhs : FileMetaData K) : Status :=
  match requirement with
  | .mightMissing => if newestFirstBySeqNo lhs rhs then .ok else .corruption
  | .mustPresent =>
    if lhs.epochNumber = rhs.epochNumber ∧ rangeOverlapped lhs rhs then .corruption
    else if newestFirstByEpochNumber lhs rhs then .ok
    else .corruption

/-- The checker of the levels from L1 on. -/
def nonzeroChecker (lhs rhs : FileMetaData K) : Status :=
  if !bySmallestKey lhs rhs then .corruption
  else if rhs.smallest ≤ lhs.largest then .corruption
  else .ok

/-- The checks of the levels from L1 on. -/
def checkNonzeroLevels :
    List (List (FileMetaData K)) → ExpectedLinkedSsts → Status × ExpectedLinkedSsts
  | [], expected => (.ok, expected)
  | level :: levels, expected =>
    match checkConsistencyDetailsForLevel nonzeroChecker level expected with
    | (.ok, expected) => checkNonzeroLevels levels expected
    | failed => failed

/-- The checks of all levels. -/
def checkLevels (requirement : EpochNumberRequirement) :
    List (List (FileMetaData K)) → Status × ExpectedLinkedSsts
  | [] => (.ok, fun _ => ∅)
  | l0 :: levels =>
    match checkConsistencyDetailsForLevel (l0Checker requirement) l0 (fun _ => ∅) with
    | (.ok, expected) => checkNonzeroLevels levels expected
    | failed => failed

/-- The checks of the blob files: there is data in them, and the links are those of the table
files. -/
def checkBlobFiles (expected : ExpectedLinkedSsts) : List BlobFileMetaData → Status
  | [] => .ok
  | blob :: rest =>
    if blob.totalBlobCount ≤ blob.garbageBlobCount then .corruption
    else if blob.linkedSsts ≠ expected blob.blobFileNumber then .corruption
    else checkBlobFiles expected rest

/-- `CheckConsistencyDetails`. -/
def checkConsistencyDetails (v : VersionStorageInfo K) : Status :=
  match checkLevels v.epochNumberRequirement v.files with
  | (.ok, expected) => checkBlobFiles expected v.blobFiles
  | (failed, _) => failed

/-- `CheckConsistency`, in a release build. -/
def checkConsistency (v : VersionStorageInfo K) : Status :=
  if v.forceConsistencyChecks then checkConsistencyDetails v else .ok

/-! ## What a version that passes is like -/

/-- No internal key is in the ranges of both files. -/
def RangesDisjoint (f g : FileMetaData K) : Prop :=
  ∀ k : InternalKey K, ¬ (f.smallest ≤ k ∧ k ≤ f.largest ∧ g.smallest ≤ k ∧ k ≤ g.largest)

variable {f g : FileMetaData K} {expected expected' : ExpectedLinkedSsts}
  {files rest : List (FileMetaData K)} {checker : FileMetaData K → FileMetaData K → Status}
  {levels : List (List (FileMetaData K))} {v : VersionStorageInfo K}

lemma rangesDisjoint_of_not_overlapped (h : rangeOverlapped f g = false) : RangesDisjoint f g := by
  rintro k ⟨hf, hf', hg, hg'⟩
  have hoverlap : rangeOverlapped f g = true := by
    simp only [rangeOverlapped, Bool.and_eq_true, decide_eq_true_eq]
    exact ⟨hf.trans hg', hg.trans hf'⟩
  rw [h] at hoverlap
  exact Bool.noConfusion hoverlap

/-- The files name the blob file as their oldest one. -/
def Names (f : FileMetaData K) (blob : ℕ) : Prop :=
  f.oldestBlobFileNumber = blob ∧ blob ≠ invalidBlobFileNumber

omit [LinearOrder K] in
lemma mem_updateExpectedLinkedSsts {n blob : ℕ} : n ∈ updateExpectedLinkedSsts f expected blob ↔
      n ∈ expected blob ∨ f.number = n ∧ Names f blob := by
  unfold updateExpectedLinkedSsts Names
  by_cases hnone : f.oldestBlobFileNumber = invalidBlobFileNumber
  · rw [if_pos hnone]
    constructor
    · exact .inl
    · rintro (h | ⟨-, rfl, hvalid⟩)
      · exact h
      · exact absurd hnone hvalid
  · rw [if_neg hnone]
    by_cases hblob : blob = f.oldestBlobFileNumber
    · subst hblob
      rw [Function.update_self, Finset.mem_insert]
      constructor
      · rintro (rfl | h)
        · exact .inr ⟨rfl, rfl, hnone⟩
        · exact .inl h
      · rintro (h | ⟨rfl, -⟩)
        · exact .inr h
        · exact .inl rfl
    · rw [Function.update_of_ne hblob]
      constructor
      · exact .inl
      · rintro (h | ⟨-, rfl, -⟩)
        · exact h
        · exact absurd rfl hblob

/-- The links collected from some files. -/
def collectLinks (files : List (FileMetaData K)) (expected : ExpectedLinkedSsts) :
    ExpectedLinkedSsts :=
  files.foldl (fun expected f => updateExpectedLinkedSsts f expected) expected

omit [LinearOrder K] in
lemma mem_collectLinks {n blob : ℕ} : n ∈ collectLinks files expected blob ↔
      n ∈ expected blob ∨ ∃ f ∈ files, f.number = n ∧ Names f blob := by
  induction files generalizing expected with
  | nil => simp [collectLinks]
  | cons f files ih =>
    have hstep : collectLinks (f :: files) expected =
        collectLinks files (updateExpectedLinkedSsts f expected) := rfl
    rw [hstep, ih, mem_updateExpectedLinkedSsts]
    simp only [mem_cons, exists_eq_or_imp]
    tauto

omit [LinearOrder K] in
lemma collectLinks_append (files files' : List (FileMetaData K)) (expected : ExpectedLinkedSsts) :
    collectLinks (files ++ files') expected = collectLinks files' (collectLinks files expected) :=
  foldl_append

omit [LinearOrder K] in
/-- A level that passes: the checker accepts all neighbours, and the links are collected. -/
lemma checkNeighbours_ok {lhs : FileMetaData K}
    (h : checkNeighbours checker lhs rest expected = (.ok, expected')) :
    (lhs :: rest).IsChain (fun f g => checker f g = .ok) ∧
    expected' = collectLinks rest expected := by
  induction rest generalizing lhs expected with
  | nil =>
    cases h
    exact ⟨isChain_singleton lhs, rfl⟩
  | cons rhs rest ih =>
    rw [checkNeighbours] at h
    split at h
    · next hok =>
      obtain ⟨hchain, hlinks⟩ := ih h
      exact ⟨isChain_cons_cons.2 ⟨hok, hchain⟩, hlinks⟩
    · next hfailed => exact absurd (Prod.ext_iff.1 h).1 hfailed

omit [LinearOrder K] in
lemma checkLevel_ok
    (h : checkConsistencyDetailsForLevel checker files expected = (.ok, expected')) :
    files.IsChain (fun f g => checker f g = .ok) ∧ expected' = collectLinks files expected := by
  cases files with
  | nil =>
    cases h
    exact ⟨isChain_nil, rfl⟩
  | cons f rest => exact checkNeighbours_ok h

lemma checkNonzeroLevels_ok (h : checkNonzeroLevels levels expected = (.ok, expected')) :
    (∀ files ∈ levels, files.IsChain fun f g => nonzeroChecker f g = .ok) ∧
    expected' = collectLinks levels.flatten expected := by
  induction levels generalizing expected with
  | nil =>
    cases h
    exact ⟨by simp, rfl⟩
  | cons files levels ih =>
    rw [checkNonzeroLevels] at h
    split at h
    · next hlevel =>
      obtain ⟨hchain, rfl⟩ := checkLevel_ok hlevel
      obtain ⟨hchains, hlinks⟩ := ih h
      rw [flatten_cons, collectLinks_append]
      exact ⟨forall_mem_cons.2 ⟨hchain, hchains⟩, hlinks⟩
    · next hfailed => exact absurd h (hfailed _)

lemma checkLevels_ok {requirement : EpochNumberRequirement} {files : List (List (FileMetaData K))}
    (h : checkLevels requirement files = (.ok, expected)) :
    ((files.getD 0 []).IsChain fun f g => l0Checker requirement f g = .ok) ∧
    (∀ level ∈ files.tail, level.IsChain fun f g => nonzeroChecker f g = .ok) ∧
    expected = collectLinks files.flatten fun _ => ∅ := by
  cases files with
  | nil =>
    cases h
    exact ⟨by simp, by simp, rfl⟩
  | cons l0 levels =>
    rw [checkLevels] at h
    split at h
    · next hlevel =>
      obtain ⟨hchain, rfl⟩ := checkLevel_ok hlevel
      obtain ⟨hchains, hlinks⟩ := checkNonzeroLevels_ok h
      rw [flatten_cons, collectLinks_append]
      exact ⟨hchain, hchains, hlinks⟩
    · next hfailed => exact absurd h (hfailed _)

lemma checkBlobFiles_eq_ok {blobs : List BlobFileMetaData} :
    checkBlobFiles expected blobs = .ok ↔ ∀ blob ∈ blobs,
      blob.garbageBlobCount < blob.totalBlobCount ∧
      blob.linkedSsts = expected blob.blobFileNumber := by
  induction blobs with
  | nil => simp [checkBlobFiles]
  | cons blob blobs ih =>
    rw [checkBlobFiles, forall_mem_cons, ← ih]
    split_ifs with hgarbage hlinked
    · exact iff_of_false (by simp) fun h => absurd h.1.1 (UInt64.not_lt.2 hgarbage)
    · exact iff_of_false (by simp) fun h => hlinked h.1.2
    · exact (and_iff_right ⟨UInt64.not_le.1 hgarbage, not_not.1 hlinked⟩).symm

/-! ## The guarantees of the checks -/

/-- Files with the same epoch number have disjoint ranges. -/
def EpochDisjoint (f g : FileMetaData K) : Prop :=
  f.epochNumber = g.epochNumber → RangesDisjoint f g

/-- A consistent version: files of one epoch in L0 are disjoint, so are the files of every other
level, and the blob files have the links of the table files. -/
structure Consistent (v : VersionStorageInfo K) : Prop where
  l0 : (v.levelFiles 0).Pairwise EpochDisjoint
  levels : ∀ level, 1 ≤ level → (v.levelFiles level).Pairwise RangesDisjoint
  links : ∀ blob ∈ v.blobFiles, ∀ n, n ∈ blob.linkedSsts ↔
    ∃ f ∈ v.files.flatten, f.number = n ∧ Names f blob.blobFileNumber

/-- What the neighbours do not tell: files of one epoch with another file between them are
disjoint. -/
def ApartDisjoint (v : VersionStorageInfo K) : Prop :=
  ∀ front f between g rest, v.levelFiles 0 = front ++ f :: between ++ g :: rest →
    between ≠ [] → EpochDisjoint f g

lemma pairwise_iff_isChain_and_apart {α : Type} {R : α → α → Prop} (l : List α) :
    l.Pairwise R ↔ l.IsChain R ∧
      ∀ front a between b rest, l = front ++ a :: between ++ b :: rest → between ≠ [] → R a b := by
  constructor
  · intro h
    refine ⟨h.isChain, ?_⟩
    rintro front a between b rest rfl -
    rw [append_assoc, cons_append, pairwise_append, pairwise_cons] at h
    exact h.2.1.1 b (by simp)
  · rintro ⟨hchain, hapart⟩
    induction l with
    | nil => exact Pairwise.nil
    | cons a l ih =>
      refine pairwise_cons.2 ⟨fun b hb => ?_, ih hchain.tail ?_⟩
      · obtain ⟨between, rest, rfl⟩ := append_of_mem hb
        cases between with
        | nil => exact (isChain_cons_cons.1 hchain).1
        | cons c between => exact hapart [] a (c :: between) b rest rfl (by simp)
      · rintro front x between y rest rfl hne
        exact hapart (a :: front) x between y rest rfl hne

lemma l0Checker_mustPresent (h : l0Checker .mustPresent f g = .ok) : EpochDisjoint f g := by
  intro hepoch
  simp only [l0Checker] at h
  split_ifs at h with hoverlap
  exact rangesDisjoint_of_not_overlapped (Bool.eq_false_iff.2 fun htrue => hoverlap ⟨hepoch, htrue⟩)

/-- The files of a level from L1 on go up: one ends before the next one begins. -/
def Ascends (f g : FileMetaData K) : Prop := f.smallest ≤ g.smallest ∧ f.largest < g.smallest

lemma nonzeroChecker_ascends (h : nonzeroChecker f g = .ok) : Ascends f g := by
  simp only [nonzeroChecker] at h
  split_ifs at h with horder hoverlap
  refine ⟨?_, lt_of_not_ge hoverlap⟩
  simp only [Bool.not_eq_true, Bool.not_eq_false', bySmallestKey] at horder
  split_ifs at horder with hne
  · exact (of_decide_eq_true horder).le
  · exact (not_not.1 hne).le

/-- Along a level the ranges are disjoint, not only those of neighbours. -/
lemma pairwise_of_nonzeroChecker (h : files.IsChain fun f g => nonzeroChecker f g = .ok) :
    files.Pairwise RangesDisjoint := by
  have hchain : files.IsChain Ascends := h.imp fun _ _ => nonzeroChecker_ascends
  have htrans : IsTrans (FileMetaData K) Ascends :=
    ⟨fun _ _ _ hab hbc => ⟨hab.1.trans hbc.1, hab.2.trans_le hbc.1⟩⟩
  refine (isChain_iff_pairwise.1 hchain).imp fun hfg => ?_
  rintro k ⟨-, hf, hg, -⟩
  exact absurd (hf.trans_lt hfg.2) (not_lt.2 hg)

lemma checkConsistencyDetails_ok (h : checkConsistencyDetails v = .ok) :
    ((v.levelFiles 0).IsChain fun f g => l0Checker v.epochNumberRequirement f g = .ok) ∧
    (∀ level, 1 ≤ level → (v.levelFiles level).IsChain fun f g => nonzeroChecker f g = .ok) ∧
    ∀ blob ∈ v.blobFiles, blob.garbageBlobCount < blob.totalBlobCount ∧
      blob.linkedSsts = collectLinks v.files.flatten (fun _ => ∅) blob.blobFileNumber := by
  rw [checkConsistencyDetails] at h
  split at h
  · next hlevels =>
    obtain ⟨hl0, hupper, rfl⟩ := checkLevels_ok hlevels
    refine ⟨hl0, fun level hpos => ?_, checkBlobFiles_eq_ok.1 h⟩
    obtain ⟨k, rfl⟩ : ∃ k, level = k + 1 := ⟨level - 1, by omega⟩
    have htail : v.levelFiles (k + 1) = v.files.tail.getD k [] := by
      cases hfiles : v.files <;> simp [levelFiles, hfiles]
    rw [htail]
    by_cases hlevel : k < v.files.tail.length
    · rw [getD_eq_getElem _ _ hlevel]
      exact hupper _ (getElem_mem hlevel)
    · rw [getD_eq_default _ _ (not_lt.1 hlevel)]
      exact isChain_nil
  · next hfailed _ => exact absurd h (hfailed ·)

/-- **Consistency checks.** In a version that passes the checks, levels from L1 on and blob links
are as they should be; for L0 this is so if and only if files of one epoch that are not neighbours
do not overlap. -/
theorem consistent_iff_apartDisjoint {v : VersionStorageInfo K}
    (present : v.epochNumberRequirement = .mustPresent) (passes : checkConsistencyDetails v = .ok) :
    Consistent v ↔ ApartDisjoint v := by
  obtain ⟨hl0, hlevels, hlinks⟩ := checkConsistencyDetails_ok passes
  rw [present] at hl0
  have hneighbours : (v.levelFiles 0).IsChain EpochDisjoint :=
    hl0.imp fun _ _ => l0Checker_mustPresent
  constructor
  · intro h
    exact ((pairwise_iff_isChain_and_apart _).1 h.l0).2
  · intro h
    refine ⟨(pairwise_iff_isChain_and_apart _).2 ⟨hneighbours, h⟩,
      fun level hpos => pairwise_of_nonzeroChecker (hlevels level hpos), fun blob hblob n => ?_⟩
    rw [(hlinks blob hblob).2, mem_collectLinks]
    simp

/-- A file of one user key, written with one sequence number, in epoch 1. -/
def ingested (number sequence key : ℕ) : FileMetaData ℕ where
  number
  smallest := ⟨key, sequence, .value⟩
  largest := ⟨key, sequence, .value⟩
  smallestSeqno := sequence
  largestSeqno := sequence
  epochNumber := 1
  oldestBlobFileNumber := 0

/-- Of three files of one epoch, the first and the last one are not neighbours. -/
theorem consistent_triple : Consistent (⟨[[ingested 9 5 1, ingested 8 5 2, ingested 7 5 3]], [],
      .mustPresent, true⟩ : VersionStorageInfo ℕ) := by
  refine (consistent_iff_apartDisjoint rfl (by decide)).2 ?_
  intro front f between g rest hfiles hbetween
  have hlength := congrArg List.length hfiles
  have hpos := List.length_pos_iff.2 hbetween
  simp only [levelFiles, getD_cons_zero, length_append, length_cons, length_nil] at hlength
  obtain rfl : front = [] := List.length_eq_zero_iff.1 (by omega)
  obtain ⟨file, rfl⟩ := List.length_eq_one_iff.1 (show between.length = 1 by omega)
  obtain rfl : rest = [] := List.length_eq_zero_iff.1 (by omega)
  simp only [levelFiles, getD_cons_zero, nil_append, cons_append, cons.injEq, and_true] at hfiles
  obtain ⟨rfl, -, rfl⟩ := hfiles
  exact fun _ _ hk => absurd (hk.2.2.1.trans hk.2.1) (by decide)

/-- The first and the third file are both of epoch 1 and hold the same key; the second one keeps
the check from comparing them. -/
theorem not_consistent_of_apart :
    let v : VersionStorageInfo ℕ :=
      ⟨[[ingested 9 5 1, ingested 8 5 2, ingested 7 5 1]], [], .mustPresent, true⟩
    checkConsistencyDetails v = .ok ∧ ¬ Consistent v := by
  refine ⟨by decide, fun h => ?_⟩
  have hpair := h.l0
  simp only [VersionStorageInfo.levelFiles, List.getD_cons_zero, List.pairwise_cons] at hpair
  exact hpair.1 (ingested 7 5 1) (by simp) rfl ⟨1, 5, .value⟩ (by decide)

end BucketLSM.Manifest
