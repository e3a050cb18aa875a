import BucketLSM.Compaction.Version

/-!
# The compaction picker

`CompactionPicker`: key ranges of input files, expansion to a clean cut, conflicts with the
registered compactions, the inputs from the output level. The registered compactions are
passed as a list; those of level 0 are the ones that start there.
-/

namespace BucketLSM

/-- `compaction_pri`. -/
inductive CompactionPri
  | byCompensatedSize
  | oldestLargestSeqFirst
  | oldestSmallestSeqFirst
  | minOverlappingRatio
  | roundRobin
deriving DecidableEq, Repr

/-- The compaction reasons of leveled compaction. -/
inductive CompactionReason
  | unknown
  | levelL0FilesNum
  | levelMaxLevelSize
  | manualCompaction
  | filesMarkedForCompaction
  | bottommostFiles
  | ttl
  | externalSstIngestion
  | periodicCompaction
  | forcedBlobGC
  | roundRobinTtl
  | refitLevel
deriving DecidableEq, Repr

/-- The immutable options the leveled picker reads. -/
structure ImmutableOptions (D : Type) where
  useNewFlush : ℕ
  enableIntraL0Compaction : Bool
  l0WeightCompaction : Bool
  l0FileCountWeight : D
  compactionPri : CompactionPri
  levelCompactionDynamicLevelBytes : Bool
  numLevels : ℕ
  /-- The number of `db_paths`. -/
  dbPaths : ℕ

/-- The mutable options the leveled picker reads. -/
structure MutableCFOptions (D : Type) where
  level0FileNumCompactionTrigger : ℤ
  maxCompactionBytes : ℕ
  maxBytesForLevelMultiplier : D
  /-- `compression_per_level.empty()`. -/
  compressionPerLevelEmpty : Bool
  precludeLastLevelDataSeconds : ℕ

/-- `CompactionInputFiles`. -/
structure CompactionInputFiles (K : Type) [LinearOrder K] where
  level : ℕ
  files : List (FileMetaData K)
deriving DecidableEq

/-- A compaction, as far as the picker reads it back: its inputs, its user-key range, and
the range it may write on the level above the last one if it splits keys between the two. -/
structure Compaction (K : Type) [LinearOrder K] where
  startLevel : ℕ
  outputLevel : ℕ
  inputs : List (CompactionInputFiles K)
  reason : CompactionReason
  userKeys : Option (K × K)
  proximalLevel : Option ℕ
  proximalUserKeys : Option (K × K)
deriving DecidableEq

/-- `MultiplyCheckOverflow`. -/
def multiplyCheckOverflow {D : Type} [Double D] (op1 : ℕ) (op2 : D) : ℕ :=
  if op1 = 0 ∨ Double.le op2 (Double.ofNat 0) then 0
  else if Double.lt (Double.ofNat ((2 ^ 64 - 1) / op1)) op2 then op1
  else Double.toNat (Double.ofNat op1 * op2)

variable {K D : Type} [LinearOrder K]

/-! ### Key ranges of inputs -/

/-- The smallest and largest internal keys of a list of files. -/
def hull : List (FileMetaData K) → Option (InternalKey K × InternalKey K)
  | [] => none
  | f :: fs => some (fs.foldl (fun r f => (if f.smallest < r.1 then f.smallest else r.1,
      if r.2 < f.largest then f.largest else r.2)) (f.smallest, f.largest))

/-- `GetRange` of the inputs of one level: all files count on level 0, the first and the
last one above. -/
def getRange (inputs : CompactionInputFiles K) : Option (InternalKey K × InternalKey K) :=
  if inputs.level = 0 then hull inputs.files
  else
    match inputs.files.head?, inputs.files.getLast? with
    | some first, some last => some (first.smallest, last.largest)
    | _, _ => none

/-- The range that spans two ranges. -/
def spanRange : Option (InternalKey K × InternalKey K) → InternalKey K × InternalKey K →
    InternalKey K × InternalKey K
  | none, r => r
  | some r₀, r => (if r.1 < r₀.1 then r.1 else r₀.1, if r₀.2 < r.2 then r.2 else r₀.2)

/-- A range widened to the inputs of one more level, unless that is `excludeLevel`. -/
def widenRange (excludeLevel : Option ℕ) (r : Option (InternalKey K × InternalKey K))
    (inputs : CompactionInputFiles K) : Option (InternalKey K × InternalKey K) :=
  if some inputs.level = excludeLevel then r
  else
    match getRange inputs with
    | none => r
    | some r' => some (spanRange r r')

/-- `GetRange` of the inputs of several levels, all but `excludeLevel`. -/
def getRangeOfLevels (excludeLevel : Option ℕ) :
    List (CompactionInputFiles K) → Option (InternalKey K × InternalKey K) :=
  List.foldl (widenRange excludeLevel) none

/-! ### Conflicts -/

/-- `AreFilesInCompaction`. -/
def areFilesInCompaction (files : List (FileMetaData K)) : Bool :=
  files.any FileMetaData.beingCompacted

/-- The closed user-key range `[smallest, largest]` meets a range. -/
def meetsRange (smallest largest : K) : Option (K × K) → Bool
  | none => false
  | some r => smallest ≤ r.2 ∧ r.1 ≤ largest

/-- `RangeOverlapWithCompaction`. -/
def rangeOverlapWithCompaction (running : List (Compaction K)) (smallest largest : K)
    (level : ℕ) : Bool :=
  running.any fun c =>
    (c.outputLevel = level && meetsRange smallest largest c.userKeys) ||
    (c.proximalLevel.isSome && meetsRange smallest largest c.proximalUserKeys)

/-- `FilesRangeOverlapWithCompaction` of leveled compaction. -/
def filesRangeOverlapWithCompaction (running : List (Compaction K))
    (inputs : List (CompactionInputFiles K)) (level : ℕ) (proximalLevel : Option ℕ) : Bool :=
  match getRangeOfLevels none inputs with
  | none => false
  | some r =>
    let proximal :=
      match proximalLevel with
      | none => false
      | some p =>
        match getRangeOfLevels (some level) inputs with
        | none => false
        | some r' => rangeOverlapWithCompaction running r'.1.userKey r'.2.userKey p
    proximal || rangeOverlapWithCompaction running r.1.userKey r.2.userKey level

/-- `level0_compactions_in_progress`. -/
def level0CompactionsInProgress (running : List (Compaction K)) : List (Compaction K) :=
  running.filter fun c => c.startLevel = 0 && c.reason ≠ .externalSstIngestion

/-- `EvaluateProximalLevel` of leveled compaction. -/
def evaluateProximalLevel (mopts : MutableCFOptions D) (iopts : ImmutableOptions D)
    (startLevel outputLevel : ℕ) : Option ℕ :=
  if outputLevel + 1 ≠ iopts.numLevels then none
  else if outputLevel ≤ 1 then none
  else if startLevel + 1 = iopts.numLevels then none
  else if mopts.precludeLastLevelDataSeconds > 0 then some (outputLevel - 1)
  else none

/-- The constructor of `Compaction`, up to the marking of the input files. -/
def Compaction.new (mopts : MutableCFOptions D) (iopts : ImmutableOptions D)
    (inputs : List (CompactionInputFiles K)) (outputLevel : ℕ) (reason : CompactionReason) :
    Compaction K :=
  let startLevel := (inputs.head?.map CompactionInputFiles.level).getD 0
  let proximalLevel := evaluateProximalLevel mopts iopts startLevel outputLevel
  let userKeys := fun r : InternalKey K × InternalKey K => (r.1.userKey, r.2.userKey)
  { startLevel := startLevel
    outputLevel := outputLevel
    inputs := inputs
    reason := reason
    userKeys := (getRangeOfLevels none inputs).map userKeys
    proximalLevel := proximalLevel
    proximalUserKeys := if proximalLevel.isSome then
      (getRangeOfLevels (some (iopts.numLevels - 1)) inputs).map userKeys else none }

/-! ### Clean cuts -/

/-- The loop of `ExpandInputsToCleanCut`: the files of the level that overlap the range of
the inputs replace them until their number no longer grows. -/
def expandLoop (vs : VersionStorageInfo K D) (level : ℕ) :
    ℕ → List (FileMetaData K) → Option ℕ → List (FileMetaData K)
  | 0, files, _ => files
  | fuel + 1, files, hintIndex =>
    match getRange ⟨level, files⟩ with
    | none => files
    | some r =>
      let (files', hintIndex') := vs.getOverlappingInputs level r.1 r.2 hintIndex true
      if files.length < files'.length then expandLoop vs level fuel files' hintIndex' else files'

variable (vs : VersionStorageInfo K D)

/-- `ExpandInputsToCleanCut`: the expanded inputs, and whether none of them is in use. -/
def expandInputsToCleanCut (inputs : CompactionInputFiles K) :
    Bool × CompactionInputFiles K :=
  if inputs.level = 0 then (true, inputs)
  else
    let files := expandLoop vs inputs.level ((vs.levelFiles inputs.level).length + 1)
      inputs.files none
    (!areFilesInCompaction files, ⟨inputs.level, files⟩)

/-! ### Inputs from the output level -/

/-- The part of `SetupOtherInputs` that looks up the output level: whether its files are free
and cut clean, those files, and the index where they start. -/
def overlappingOutputInputs (outputLevel : ℕ)
    (range : InternalKey K × InternalKey K) (parentIndex : Option ℕ) :
    Bool × CompactionInputFiles K × Option ℕ :=
  let (overlapping, parentIndex) :=
    vs.getOverlappingInputs outputLevel range.1 range.2 parentIndex true
  if areFilesInCompaction overlapping then (false, ⟨outputLevel, overlapping⟩, parentIndex)
  else if overlapping = [] then (true, ⟨outputLevel, []⟩, parentIndex)
  else
    let (clean, outputInputs) := expandInputsToCleanCut vs ⟨outputLevel, overlapping⟩
    (clean, outputInputs, parentIndex)

/-- The part of `SetupOtherInputs` that takes more files of the start level if that brings in
no more files of the output level. -/
def growInputs [Double D] (vs : VersionStorageInfo K D) (mopts : MutableCFOptions D)
    (inputs outputInputs : CompactionInputFiles K) (range : InternalKey K × InternalKey K)
    (parentIndex baseIndex : Option ℕ) (onlyExpandTowardsRight : Bool) : CompactionInputFiles K :=
  match getRange outputInputs with
  | none => inputs
  | some r =>
    let all := spanRange (some range) r
    let outputSize := totalFileSize outputInputs.files
    let limit := multiplyCheckOverflow mopts.maxCompactionBytes (Double.lit 2 : D)
    let candidates := (vs.getOverlappingInputs inputs.level
      (if onlyExpandTowardsRight then range.1 else all.1) all.2 baseIndex true).1
    let expanded := expandInputsToCleanCut vs ⟨inputs.level, candidates⟩
    let expandedOutput : CompactionInputFiles K :=
      match getRange expanded.2 with
      | none => ⟨outputInputs.level, []⟩
      | some r' => ⟨outputInputs.level,
          (vs.getOverlappingInputs outputInputs.level r'.1 r'.2 parentIndex true).1⟩
    let within := vs.getCleanInputsWithinInterval inputs.level all.1 all.2 baseIndex
    if expanded.1 ∧ inputs.files.length < expanded.2.files.length ∧
        areFilesInCompaction expanded.2.files = false ∧
        outputSize + totalFileSize candidates < limit ∧
        areFilesInCompaction expandedOutput.files = false ∧
        (expandInputsToCleanCut vs expandedOutput).1 ∧
        (expandInputsToCleanCut vs expandedOutput).2.files.length = outputInputs.files.length then
      ⟨inputs.level, expanded.2.files⟩
    else if inputs.files.length < within.length ∧ areFilesInCompaction within = false ∧
        outputSize + totalFileSize within < limit then
      ⟨inputs.level, within⟩
    else inputs

/-- `SetupOtherInputs`: whether the compaction can go on, the start level inputs and the
output level inputs. -/
def setupOtherInputs [Double D] (vs : VersionStorageInfo K D) (mopts : MutableCFOptions D)
    (iopts : ImmutableOptions D) (inputs : CompactionInputFiles K) (outputLevel : ℕ)
    (parentIndex baseIndex : Option ℕ) (onlyExpandTowardsRight : Bool) :
    Bool × CompactionInputFiles K × CompactionInputFiles K :=
  if inputs.level = outputLevel then (true, inputs, ⟨outputLevel, []⟩)
  else
    match getRange inputs with
    | none => (true, inputs, ⟨outputLevel, []⟩)
    | some range =>
      let (free, outputInputs, parentIndex) :=
        overlappingOutputInputs vs outputLevel range parentIndex
      if !free then (false, inputs, outputInputs)
      -- the bucket modes take the group of level-0 files as it is
      else if inputs.level = 0 ∧ iopts.useNewFlush ≠ 0 then (true, inputs, outputInputs)
      else (true, growInputs vs mopts inputs outputInputs range parentIndex baseIndex
        onlyExpandTowardsRight, outputInputs)

/-- `GetOverlappingL0Files`, which only the original flush mode uses. -/
def getOverlappingL0Files (inputs : CompactionInputFiles K)
    (outputLevel : ℕ) (parentIndex : Option ℕ) : Bool × CompactionInputFiles K × Option ℕ :=
  match getRange inputs with
  | none => (true, inputs, parentIndex)
  | some r =>
    let files := (vs.getOverlappingInputs 0 r.1 r.2 none true).1
    match getRange ⟨0, files⟩ with
    | none => (true, ⟨inputs.level, files⟩, parentIndex)
    | some r' =>
      let (overlapping, parentIndex) :=
        vs.getOverlappingInputs outputLevel r'.1 r'.2 parentIndex true
      (!areFilesInCompaction overlapping, ⟨inputs.level, files⟩, parentIndex)

end BucketLSM
