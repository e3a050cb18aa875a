import BucketLSM.Compaction.Version

/-!
# The marked files of a version

The lists of marked files that `ComputeCompactionScore` leaves after the scores. Each of them
skips the files that are being compacted.
-/

namespace BucketLSM

open List

/-- What the marking reads besides the files of the version. The files that
`GenerateBottommostFiles` lists and the files linked to the oldest blob files are given by
their numbers. -/
structure MarkingEnv where
  allowIngestBehind : Bool
  ttl : ℕ
  periodicCompactionSeconds : ℕ
  /-- The current time, unless the clock fails. -/
  currentTime : Option ℕ
  /-- The seconds until the next offpeak start, if it is offpeak time now. -/
  offpeakSeconds : ℕ
  /-- `GetFileModificationTime`. -/
  fileModificationTime : ℕ → Option ℕ
  bottommostFiles : ℕ → Bool
  oldestSnapshotSeqnum : ℕ
  bottommostFileCompactionDelay : ℕ
  /-- The files linked to the oldest blob file, if garbage collection is forced. -/
  linkedSsts : List ℕ

variable {K : Type} [LinearOrder K]

/-- All files with their levels. -/
def filesOfLevels (levels : List (List (FileMetaData K))) : List (ℕ × FileMetaData K) :=
  levels.zipIdx.flatMap fun p => p.1.map fun f => (p.2, f)

lemma mem_filesOfLevels {levels : List (List (FileMetaData K))} {p : ℕ × FileMetaData K}
    (hp : p ∈ filesOfLevels levels) : p.2 ∈ levels.getD p.1 [] := by
  obtain ⟨⟨files, level⟩, hlevel, hfile⟩ := mem_flatMap.1 hp
  obtain ⟨f, hf, rfl⟩ := mem_map.1 hfile
  have hget := mem_zipIdx_iff_getElem?.1 hlevel
  simpa [getD, hget] using hf

namespace MarkingEnv

variable (env : MarkingEnv) (levels : List (List (FileMetaData K)))

/-- `MaxOutputLevel`. -/
def maxOutputLevel : ℕ :=
  if env.allowIngestBehind then levels.length - 2 else levels.length - 1

/-- The level above the last one with files, which is not marked. -/
def lastQualifyLevel : ℕ → ℕ
  | 0 => 0
  | level + 1 => if levels.getD (level + 1) [] ≠ [] then level else lastQualifyLevel level

/-- `ComputeFilesMarkedForCompaction`. -/
def computeFilesMarkedForCompaction : List (ℕ × FileMetaData K) :=
  (filesOfLevels levels).filter fun p =>
    p.1 ≤ lastQualifyLevel levels (env.maxOutputLevel levels) ∧
      p.2.beingCompacted = false ∧ p.2.markedForCompaction

/-- `ComputeExpiredTtlFiles`. The times are 64-bit numbers, and a time to live beyond the
current time wraps around. -/
def computeExpiredTtlFiles : List (ℕ × FileMetaData K) :=
  match env.ttl, env.currentTime with
  | 0, _ => []
  | _, none => []
  | ttl, some now => (filesOfLevels levels).filter fun p =>
    p.1 + 1 < levels.length ∧ p.2.beingCompacted = false ∧
      0 < p.2.oldestAncesterTime ∧ p.2.oldestAncesterTime < (now + 2 ^ 64 - ttl) % 2 ^ 64

/-- The time a file was last modified: from the table properties, or from the file system. -/
def modificationTime (f : FileMetaData K) : Option ℕ :=
  if f.fileCreationTime ≠ 0 then some f.fileCreationTime
  else if f.oldestAncesterTime ≠ 0 then some f.oldestAncesterTime
  else env.fileModificationTime f.number

/-- `ComputeFilesMarkedForPeriodicCompaction`. -/
def computeFilesMarkedForPeriodicCompaction : List (ℕ × FileMetaData K) :=
  match env.periodicCompactionSeconds, env.currentTime with
  | 0, _ => []
  | _, none => []
  | seconds, some now =>
    if now < seconds then []
    else (filesOfLevels levels).filter fun p =>
      p.1 ≤ env.maxOutputLevel levels ∧ p.2.beingCompacted = false ∧
        (env.modificationTime p.2).any fun time =>
          0 < time ∧ time < now - seconds + env.offpeakSeconds

/-- `ComputeBottommostFilesMarkedForCompaction`. -/
def computeBottommostFilesMarkedForCompaction : List (ℕ × FileMetaData K) :=
  if env.allowIngestBehind then []
  else
    let creationTimeUb : ℤ := env.currentTime.getD 0 - env.bottommostFileCompactionDelay
    (filesOfLevels levels).filter fun p =>
      env.bottommostFiles p.2.number ∧ p.2.beingCompacted = false ∧ p.2.largestSeqno ≠ 0 ∧
        p.2.largestSeqno < env.oldestSnapshotSeqnum ∧
        (env.bottommostFileCompactionDelay = 0 ∨ 0 < creationTimeUb ∧
          (p.2.fileCreationTime = 0 ∨ (p.2.fileCreationTime : ℤ) ≤ creationTimeUb))

/-- `ComputeFilesMarkedForForcedBlobGC`. -/
def computeFilesMarkedForForcedBlobGC : List (ℕ × FileMetaData K) :=
  env.linkedSsts.filterMap fun number =>
    ((filesOfLevels levels).find? fun p => p.2.number = number).filter fun p =>
      !p.2.beingCompacted

/-- The marked files of a version. -/
def computeMarkedFiles : MarkedFiles K where
  forCompaction := env.computeFilesMarkedForCompaction levels
  bottommost := env.computeBottommostFilesMarkedForCompaction levels
  expiredTtl := env.computeExpiredTtlFiles levels
  periodic := env.computeFilesMarkedForPeriodicCompaction levels
  forcedBlobGC := env.computeFilesMarkedForForcedBlobGC levels

/-- A marked file is a file of its level that is not being compacted. -/
lemma computeMarkedFiles_active (p : ℕ × FileMetaData K)
    (hp : p ∈ (env.computeMarkedFiles levels).all) :
    p.2 ∈ levels.getD p.1 [] ∧ p.2.beingCompacted = false := by
  have hactive : p ∈ filesOfLevels levels ∧ p.2.beingCompacted = false := by
    simp only [MarkedFiles.all, computeMarkedFiles, mem_append] at hp
    rcases hp with (((hp | hp) | hp) | hp) | hp
    · simp only [computeFilesMarkedForCompaction, mem_filter, decide_eq_true_eq] at hp
      exact ⟨hp.1, hp.2.2.1⟩
    · unfold computeBottommostFilesMarkedForCompaction at hp
      split_ifs at hp
      · exact absurd hp not_mem_nil
      · simp only [mem_filter, decide_eq_true_eq] at hp
        exact ⟨hp.1, hp.2.2.1⟩
    · unfold computeExpiredTtlFiles at hp
      split at hp
      · exact absurd hp not_mem_nil
      · exact absurd hp not_mem_nil
      · simp only [mem_filter, decide_eq_true_eq] at hp
        exact ⟨hp.1, hp.2.2.1⟩
    · unfold computeFilesMarkedForPeriodicCompaction at hp
      split at hp
      · exact absurd hp not_mem_nil
      · exact absurd hp not_mem_nil
      · split_ifs at hp
        · exact absurd hp not_mem_nil
        · simp only [mem_filter, decide_eq_true_eq] at hp
          exact ⟨hp.1, hp.2.2.1⟩
    · obtain ⟨number, -, hfound⟩ := mem_filterMap.1 hp
      obtain ⟨hfind, hfree⟩ := Option.filter_eq_some_iff.1 hfound
      exact ⟨mem_of_find?_eq_some hfind, by simpa using hfree⟩
  exact ⟨mem_filesOfLevels hactive.1, hactive.2⟩

end MarkingEnv

end BucketLSM
