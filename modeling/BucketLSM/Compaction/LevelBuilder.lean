import BucketLSM.Compaction.Groups

/-!
# Picking a leveled compaction

`LevelCompactionBuilder` of `compaction_picker_level.cc`, step by step: the initial files by
level score or from the marked files, the other level-0 files, the inputs from the output
level. `PickContext` holds what one call reads.
-/

namespace BucketLSM

open Double

/-- `CompactToNextLevel`. -/
inductive CompactToNextLevel
  | no
  | yes
  | skipLastLevel
deriving DecidableEq, Repr

/-- What a call of `PickCompaction` reads: the version, the registered compactions, the
options, and the choices that are left open (orders, the random marked file). -/
structure PickContext (K D : Type) [LinearOrder K] where
  vstorage : VersionStorageInfo K D
  running : List (Compaction K)
  mopts : MutableCFOptions D
  iopts : ImmutableOptions D
  shuffle : Shuffle
  randomFileIndex : ℕ

/-- The members of `LevelCompactionBuilder` that change, with the indices it stores in the
version. -/
structure LevelCompactionBuilder (K : Type) [LinearOrder K] where
  startLevel : ℕ
  outputLevel : ℕ
  parentIndex : Option ℕ
  baseIndex : Option ℕ
  isL0TrivialMove : Bool
  startLevelInputs : CompactionInputFiles K
  compactionInputs : List (CompactionInputFiles K)
  outputLevelInputs : CompactionInputFiles K
  compactionReason : CompactionReason
  nextCompactionIndex : ℕ → ℕ

variable {K D : Type} [LinearOrder K] [Double D]

namespace LevelCompactionBuilder

variable (ctx : PickContext K D)

/-- The builder at the start of `PickCompaction`. -/
def init : LevelCompactionBuilder K where
  startLevel := 0
  outputLevel := 0
  parentIndex := none
  baseIndex := none
  isL0TrivialMove := false
  startLevelInputs := ⟨0, []⟩
  compactionInputs := []
  outputLevelInputs := ⟨0, []⟩
  compactionReason := .unknown
  nextCompactionIndex := ctx.vstorage.nextCompactionIndex

variable (b : LevelCompactionBuilder K)

/-- `start_level_inputs_.clear()`. -/
def clearInputs : LevelCompactionBuilder K :=
  { b with startLevelInputs := ⟨b.startLevelInputs.level, []⟩ }

/-- The level a compaction from `level` normally goes to. -/
def nextLevel (level : ℕ) : ℕ :=
  if level = 0 then ctx.vstorage.baseLevel else level + 1

/-- The inputs conflict with a registered compaction. -/
def conflicts (inputs : List (CompactionInputFiles K))
    (startLevel outputLevel : ℕ) : Bool :=
  filesRangeOverlapWithCompaction ctx.running inputs outputLevel
    (evaluateProximalLevel ctx.mopts ctx.iopts startLevel outputLevel)

/-! ### Marked files -/

/-- `PickFileToCompact` of a list of marked files. -/
def pickFileToCompactFrom (ctx : PickContext K D) (mode : CompactToNextLevel) :
    LevelCompactionBuilder K → List (ℕ × FileMetaData K) → LevelCompactionBuilder K
  | b, [] => b.clearInputs
  | b, (level, f) :: rest =>
    let b := { b with startLevel := level }
    if mode = .skipLastLevel ∧ level + 1 = ctx.vstorage.numNonEmptyLevels then
      pickFileToCompactFrom ctx mode b rest
    else if level = 0 ∧ ctx.iopts.useNewFlush = 0 ∧
        level0CompactionsInProgress ctx.running ≠ [] then
      pickFileToCompactFrom ctx mode b rest
    else
      let outputLevel := if mode ≠ .no ∧ level + 1 < ctx.vstorage.numNonEmptyLevels then
        nextLevel ctx level else level
      let (clean, inputs) := expandInputsToCleanCut ctx.vstorage ⟨level, [f]⟩
      let b := { b with outputLevel := outputLevel, startLevelInputs := inputs }
      if clean then b else pickFileToCompactFrom ctx mode b rest

/-- One try of `PickFilesMarkedForCompaction`. -/
def tryMarkedFile (file : ℕ × FileMetaData K) : Bool × LevelCompactionBuilder K :=
  let b := { b with startLevel := file.1, outputLevel := nextLevel ctx file.1 }
  if file.1 = 0 ∧ level0CompactionsInProgress ctx.running ≠ [] then (false, b)
  else
    let (clean, inputs) := expandInputsToCleanCut ctx.vstorage ⟨file.1, [file.2]⟩
    (clean, { b with startLevelInputs := inputs })

/-- The loop of `PickFilesMarkedForCompaction`. -/
def tryMarkedFiles (ctx : PickContext K D) :
    LevelCompactionBuilder K → List (ℕ × FileMetaData K) → LevelCompactionBuilder K
  | b, [] => b.clearInputs
  | b, file :: rest =>
    match tryMarkedFile ctx b file with
    | (true, b) => b
    | (false, b) => tryMarkedFiles ctx b rest

/-- `PickFilesMarkedForCompaction`: a random marked file first, then all in turn. -/
def pickFilesMarkedForCompaction :
    LevelCompactionBuilder K :=
  let marked := ctx.vstorage.marked.forCompaction
  match marked[ctx.randomFileIndex % marked.length]? with
  | none => b
  | some file =>
    match tryMarkedFile ctx b file with
    | (true, b) => b
    | (false, b) => tryMarkedFiles ctx b marked

/-! ### Trivial moves from level 0 -/

/-- The range of a trivial move, with one more file if that lies outside it. -/
def extendRange : Option (InternalKey K × InternalKey K) → FileMetaData K →
    Option (InternalKey K × InternalKey K)
  | none, f => some (f.smallest, f.largest)
  | some (smallest, largest), f =>
    if f.largest < smallest then some (f.smallest, largest)
    else if largest < f.smallest then some (smallest, f.largest)
    else none

/-- The loop of `TryPickL0TrivialMove`, from the oldest file to newer ones. -/
def trivialMoveLoop (vs : VersionStorageInfo K D) (outputLevel : ℕ) :
    Option (InternalKey K × InternalKey K) → List (FileMetaData K) → List (FileMetaData K)
  | _, [] => []
  | range, f :: files =>
    match extendRange range f with
    | none => []
    | some r =>
      if (vs.getOverlappingInputs outputLevel r.1 r.2 none true).1 = [] then
        f :: trivialMoveLoop vs outputLevel (some r) files
      else []

/-- `TryPickL0TrivialMove`. -/
def tryPickL0TrivialMove :
    Option (LevelCompactionBuilder K) :=
  if ctx.vstorage.baseLevel = 0 then none
  else
    let moved := if b.startLevel = 0 ∧ ctx.mopts.compressionPerLevelEmpty ∧
        ctx.vstorage.levelFiles b.outputLevel ≠ [] ∧ ctx.iopts.dbPaths ≤ 1 then
      trivialMoveLoop ctx.vstorage b.outputLevel none (ctx.vstorage.levelFiles 0).reverse else []
    if b.startLevelInputs.files ++ moved = [] then none
    else some { b with
      startLevelInputs := ⟨b.startLevelInputs.level,
        ctx.shuffle.stdSort (fun f g => f.smallest < g.smallest)
          (b.startLevelInputs.files ++ moved)⟩
      isL0TrivialMove := true }

/-! ### Compactions within level 0 -/

/-- `kMinFilesForIntraL0Compaction`. -/
def minFilesForIntraL0Compaction : ℕ := 4

/-- `PickIntraL0Compaction`. -/
def pickIntraL0Compaction :
    Option (LevelCompactionBuilder K) :=
  let files := ctx.vstorage.levelFiles 0
  let atLeast := ctx.mopts.level0FileNumCompactionTrigger + 2
  if !ctx.iopts.enableIntraL0Compaction then none
  -- a negative count is huge as a `size_t`
  else if atLeast < 0 ∨ (files.length : ℤ) < atLeast then none
  else if files.head?.elim true FileMetaData.beingCompacted then none
  else if ctx.iopts.useNewFlush ≠ 0 then
    ((findL0OverlappingGroups ctx.shuffle files).find? fun group =>
      minFilesForIntraL0Compaction ≤ group.length ∧
        totalFileSize group ≤ ctx.mopts.maxCompactionBytes).map fun group =>
      { b with startLevelInputs := ⟨0, group⟩ }
  else none

/-- `PickSizeBasedIntraL0Compaction`. -/
def pickSizeBasedIntraL0Compaction :
    Option (LevelCompactionBuilder K) :=
  let files := ctx.vstorage.levelFiles 0
  let minNumFile := (Max.max 2 ctx.mopts.level0FileNumCompactionTrigger).toNat
  let l0Size := (files.map FileMetaData.compensatedFileSize).sum
  let multiplier : D :=
    Double.max (Double.lit 10) ctx.mopts.maxBytesForLevelMultiplier * Double.ofNat 2
  if !ctx.iopts.enableIntraL0Compaction then none
  else if ctx.vstorage.baseLevel = 0 then none
  else if files.length < minNumFile then none
  else if totalFileSize (ctx.vstorage.levelFiles ctx.vstorage.baseLevel) ≤
      multiplyCheckOverflow l0Size multiplier then none
  else if ctx.iopts.useNewFlush ≠ 0 then
    ((findL0OverlappingGroups ctx.shuffle files).find? fun group =>
      minNumFile ≤ group.length ∧ (group.map FileMetaData.compensatedFileSize).sum ≤
        ctx.mopts.maxCompactionBytes).map fun group =>
      { b with startLevelInputs := ⟨0, group⟩, outputLevel := 0 }
  else none

/-! ### Groups of level-0 files -/

/-- `GroupScore`. -/
structure GroupScore (K D : Type) [LinearOrder K] where
  files : List (FileMetaData K)
  fileCount : ℕ
  overlapRatio : D
  score : D

/-- The metrics of a group, before its score. -/
def groupMetrics (vs : VersionStorageInfo K D) (outputLevel : ℕ)
    (files : List (FileMetaData K)) : GroupScore K D :=
  let overlaps := match hull files with
    | none => []
    | some r => (vs.getOverlappingInputs outputLevel r.1 r.2 none true).1
  let groupSize := totalFileSize files
  { files := files
    fileCount := files.length
    overlapRatio := if groupSize > 0 then
      Double.ofNat (totalFileSize overlaps) / Double.ofNat groupSize else Double.ofNat 0
    score := Double.ofNat 0 }

/-- The score of a group: `alpha * N / N_max + (1 - alpha) * (1 - R / R_max)`. -/
def groupScore (alpha : D) (nMax : ℕ) (rMax : D) (gs : GroupScore K D) : GroupScore K D :=
  let fileCount : D := if nMax > 0 then Double.ofNat gs.fileCount / Double.ofNat nMax
    else Double.ofNat 0
  let efficiency : D := if Double.lt (Double.ofNat 0) rMax then
    Double.lit 1 - gs.overlapRatio / rMax else Double.lit 1
  { gs with score := alpha * fileCount + (Double.lit 1 - alpha) * efficiency }

/-- The comparator of scored groups. -/
def scoredBefore (a b : GroupScore K D) : Bool :=
  if Double.lt (Double.abs (a.score - b.score)) (Double.lit (1 / 1000000000)) then
    decide (b.fileCount < a.fileCount)
  else Double.lt b.score a.score

/-- The groups of active level-0 files, best first: by weighted score, or by file count. -/
def rankedGroups (outputLevel : ℕ) : List (List (FileMetaData K)) :=
  let groups := pickGroups (ctx.vstorage.levelFiles 0)
  if ctx.iopts.l0WeightCompaction then
    let metrics := groups.map (groupMetrics ctx.vstorage outputLevel)
    let nMax := metrics.foldl (fun n gs => if gs.fileCount > n then gs.fileCount else n) 0
    let rMax := metrics.foldl (fun r gs => if Double.lt r gs.overlapRatio then gs.overlapRatio
      else r) (Double.ofNat 0)
    (ctx.shuffle.stdSort scoredBefore
      (metrics.map (groupScore ctx.iopts.l0FileCountWeight nMax rMax))).map GroupScore.files
  else ctx.shuffle.stdSort (fun a b => b.length < a.length) groups

/-! ### Files of other levels -/

/-- `TryExtendNonL0TrivialMove` towards larger keys, with the total size so far. -/
def extendRight (ctx : PickContext K D) (outputLevel : ℕ) (initial : FileMetaData K) :
    List (FileMetaData K) → ℕ → List (FileMetaData K) → List (FileMetaData K) × ℕ
  | inputs, totalSize, [] => (inputs, totalSize)
  | inputs, totalSize, next :: rest =>
    if 4 ≤ inputs.length ∨ next.beingCompacted then (inputs, totalSize)
    else if (ctx.vstorage.getOverlappingInputs outputLevel initial.smallest next.largest none
        true).1 ≠ [] then (inputs, totalSize)
    else if rest.head?.any fun f => next.largest.userKey = f.smallest.userKey then
      (inputs, totalSize)
    else if ctx.mopts.maxCompactionBytes < totalSize + next.fileSize then
      (inputs, totalSize + next.fileSize)
    else extendRight ctx outputLevel initial (inputs ++ [next]) (totalSize + next.fileSize) rest

/-- `TryExtendNonL0TrivialMove` towards smaller keys; the files before come nearest first. -/
def extendLeft (ctx : PickContext K D) (outputLevel : ℕ) (initial : FileMetaData K) :
    List (FileMetaData K) → ℕ → List (FileMetaData K) → List (FileMetaData K)
  | inputs, _, [] => inputs
  | inputs, totalSize, next :: rest =>
    if 4 ≤ inputs.length ∨ next.beingCompacted then inputs
    else if (ctx.vstorage.getOverlappingInputs outputLevel next.smallest initial.largest none
        true).1 ≠ [] then inputs
    else if rest.head?.any fun f => next.smallest.userKey = f.largest.userKey then inputs
    else if ctx.mopts.maxCompactionBytes < totalSize + next.fileSize then inputs
    else extendLeft ctx outputLevel initial (next :: inputs) (totalSize + next.fileSize) rest

/-- `TryExtendNonL0TrivialMove`: the inputs, and whether they have grown. -/
def tryExtendNonL0TrivialMove
    (startIndex : ℕ) (onlyExpandRight : Bool) : Bool × LevelCompactionBuilder K :=
  match b.startLevelInputs.files with
  | [initial] =>
    if ctx.iopts.dbPaths ≤ 1 ∧ ctx.mopts.compressionPerLevelEmpty then
      let levelFiles := ctx.vstorage.levelFiles b.startLevel
      let (right, totalSize) := extendRight ctx b.outputLevel initial [initial] initial.fileSize
        (levelFiles.drop (startIndex + 1))
      let inputs := if onlyExpandRight then right
        else extendLeft ctx b.outputLevel initial right totalSize
          (levelFiles.take startIndex).reverse
      (1 < inputs.length, { b with startLevelInputs := ⟨b.startLevelInputs.level, inputs⟩ })
    else (false, b)
  | _ => (false, b)

/-- The files of the output level that overlap the range of the inputs. -/
def overlappingOutputFiles (outputLevel : ℕ)
    (inputs : CompactionInputFiles K) : List (FileMetaData K) :=
  match getRange inputs with
  | none => []
  | some r => (ctx.vstorage.getOverlappingInputs outputLevel r.1 r.2 none true).1

/-- One file of `PickFileToCompact`'s search by priority, which is not being compacted:
whether it can be the start of a compaction. -/
def tryFileByPriority (index : ℕ)
    (f : FileMetaData K) : Bool × LevelCompactionBuilder K :=
  let (clean, inputs) := expandInputsToCleanCut ctx.vstorage
    ⟨b.startLevelInputs.level, b.startLevelInputs.files ++ [f]⟩
  if !clean ∨ conflicts ctx [inputs] b.startLevel b.outputLevel then (false, b.clearInputs)
  else
    let b := { b with startLevelInputs := inputs }
    let outputFiles := overlappingOutputFiles ctx b.outputLevel inputs
    if outputFiles = [] then
      let (extended, b) := if 0 < b.startLevel then
        tryExtendNonL0TrivialMove ctx b index (ctx.iopts.compactionPri = .roundRobin)
        else (false, b)
      (true, if extended then b else { b with baseIndex := some index })
    else if !(expandInputsToCleanCut ctx.vstorage ⟨b.outputLevel, outputFiles⟩).1 then
      (false, b.clearInputs)
    else (true, { b with baseIndex := some index })

/-- The loop of `PickFileToCompact` over the files of a level by priority, with the index
where it stops. Round-robin gives up at the first file that cannot be picked. -/
def pickByPriority (ctx : PickContext K D) : LevelCompactionBuilder K → ℕ → List ℕ →
    LevelCompactionBuilder K × Option ℕ
  | b, cmpIdx, [] => (b, some cmpIdx)
  | b, cmpIdx, index :: rest =>
    match (ctx.vstorage.levelFiles b.startLevel)[index]? with
    | none => pickByPriority ctx b (cmpIdx + 1) rest
    | some f =>
      match if f.beingCompacted then (false, b) else tryFileByPriority ctx b index f with
      | (true, b) => (b, some cmpIdx)
      | (false, b) =>
        if ctx.iopts.compactionPri = .roundRobin then (b, none)
        else pickByPriority ctx b (cmpIdx + 1) rest

/-- `PickFileToCompact` of a level by its files' priorities. -/
def pickFileByPriority :
    Bool × LevelCompactionBuilder K :=
  let next := b.nextCompactionIndex b.startLevel
  match pickByPriority ctx b next
      ((ctx.vstorage.filesByCompactionPri b.startLevel).drop next) with
  | (b, none) => (false, b)
  | (b, some cmpIdx) =>
    let b := if ctx.iopts.compactionPri = .roundRobin then b else
      { b with nextCompactionIndex := Function.update b.nextCompactionIndex b.startLevel cmpIdx }
    (b.startLevelInputs.files ≠ [], b)

/-- `PickFileToCompact` of the start level. -/
def pickFileToCompact :
    Bool × LevelCompactionBuilder K :=
  if b.startLevel = 0 ∧ ctx.iopts.useNewFlush = 0 ∧
      level0CompactionsInProgress ctx.running ≠ [] then
    match pickSizeBasedIntraL0Compaction ctx b with
    | some b => (true, b)
    | none => (false, b)
  else
    let b := { b with startLevelInputs := ⟨b.startLevel, []⟩ }
    match tryPickL0TrivialMove ctx b with
    | some b => (true, b)
    | none =>
      match if b.startLevel = 0 then pickSizeBasedIntraL0Compaction ctx b else none with
      | some b => (true, b)
      | none =>
        if b.startLevel = 0 ∧ ctx.iopts.useNewFlush ≠ 0 then
          match rankedGroups ctx b.outputLevel with
          | group :: _ => (true, { b with startLevelInputs := ⟨0, group⟩ })
          | [] => pickFileByPriority ctx b
        else pickFileByPriority ctx b

/-! ### Initial files -/

/-- The loop of `SetupInitialFiles` over the levels by score. -/
def pickByScore (ctx : PickContext K D) : Bool → LevelCompactionBuilder K → List (ℕ × D) →
    LevelCompactionBuilder K
  | _, b, [] => b
  | skippedL0ToBase, b, (level, score) :: rest =>
    if Double.le (Double.lit 1) score then
      let b := { b with startLevel := level }
      if skippedL0ToBase ∧ level = ctx.vstorage.baseLevel then
        pickByScore ctx skippedL0ToBase b rest
      else
        match pickFileToCompact ctx { b with outputLevel := nextLevel ctx level } with
        | (true, b) => { b with compactionReason :=
            if level = 0 then .levelL0FilesNum else .levelMaxLevelSize }
        | (false, b) =>
          let b := b.clearInputs
          if level = 0 then
            match pickIntraL0Compaction ctx b with
            | some b => { b with outputLevel := 0, compactionReason := .levelL0FilesNum }
            | none => pickByScore ctx true b rest
          else pickByScore ctx skippedL0ToBase b rest
    else { b with startLevel := level }

/-- The first stages of a search that leave inputs end it. -/
def orElse (next : LevelCompactionBuilder K →
    LevelCompactionBuilder K) : LevelCompactionBuilder K :=
  if b.startLevelInputs.files ≠ [] then b else next b

/-- A stage that takes a marked file for a reason. -/
def pickMarked (files : List (ℕ × FileMetaData K))
    (mode : CompactToNextLevel) (reason : CompactionReason) (b : LevelCompactionBuilder K) :
    LevelCompactionBuilder K :=
  let b := pickFileToCompactFrom ctx mode b files
  if b.startLevelInputs.files ≠ [] then { b with compactionReason := reason } else b

/-- The round-robin stage of `SetupInitialFiles` for expired files. -/
def pickRoundRobinTtl :
    LevelCompactionBuilder K :=
  match ctx.iopts.compactionPri, ctx.vstorage.marked.expiredTtl with
  | .roundRobin, (level, _) :: _ =>
    let b := { b with startLevel := level }
    if 0 < level then
      match pickFileToCompact ctx { b with outputLevel := level + 1 } with
      | (true, b) => { b with compactionReason := .roundRobinTtl }
      | (false, b) => b
    else b
  | _, _ => b

/-- The stage of `SetupInitialFiles` for files marked for compaction. -/
def pickMarkedForCompaction :
    LevelCompactionBuilder K :=
  let b := pickFilesMarkedForCompaction ctx { b with parentIndex := none, baseIndex := none }
  if b.startLevelInputs.files ≠ [] then { b with compactionReason := .filesMarkedForCompaction }
  else b

/-- `SetupInitialFiles`. -/
def setupInitialFiles : LevelCompactionBuilder K :=
  let marked := ctx.vstorage.marked
  ((((((pickByScore ctx false (init ctx) ctx.vstorage.compactionScore).orElse
    (pickMarkedForCompaction ctx)).orElse
    (pickMarked ctx marked.bottommost .no .bottommostFiles)).orElse (pickRoundRobinTtl ctx)).orElse
    (pickMarked ctx marked.expiredTtl .skipLastLevel .ttl)).orElse (pickMarked ctx marked.periodic
      (if ctx.iopts.levelCompactionDynamicLevelBytes then .yes else .no)
      .periodicCompaction)).orElse (pickMarked ctx marked.forcedBlobGC .no .forcedBlobGC)

/-! ### Other inputs -/

/-- `SetupOtherL0FilesIfNeeded`. The bucket modes keep the group that was picked. -/
def setupOtherL0FilesIfNeeded :
    Bool × LevelCompactionBuilder K :=
  if b.startLevel = 0 ∧ b.outputLevel ≠ 0 ∧ !b.isL0TrivialMove then
    if ctx.iopts.useNewFlush ≠ 0 then (true, b)
    else
      let (free, inputs, parentIndex) :=
        getOverlappingL0Files ctx.vstorage b.startLevelInputs b.outputLevel b.parentIndex
      (free, { b with startLevelInputs := inputs, parentIndex := parentIndex })
  else (true, b)

/-- The loop of `SetupOtherFilesWithRoundRobinExpansion` over the files that follow. -/
def roundRobinLoop (ctx : PickContext K D) (startLevel outputLevel maxBytes : ℕ) :
    CompactionInputFiles K → CompactionInputFiles K → List (FileMetaData K) → CompactionInputFiles K
  | inputs, _, [] => inputs
  | inputs, tmp, f :: rest =>
    if f.beingCompacted then inputs
    else
      let (clean, tmp) := expandInputsToCleanCut ctx.vstorage ⟨tmp.level, tmp.files ++ [f]⟩
      if !clean ∨ conflicts ctx [tmp] startLevel outputLevel then inputs
      else
        let overlapping := overlappingOutputFiles ctx outputLevel tmp
        let (cleanOutput, output) := if overlapping = [] then (true, ⟨outputLevel, []⟩)
          else expandInputsToCleanCut ctx.vstorage ⟨outputLevel, overlapping⟩
        let bytes := totalFileSize tmp.files
        if !cleanOutput then inputs
        else if ctx.mopts.maxCompactionBytes < bytes + totalFileSize output.files then inputs
        else
          let inputs := ⟨inputs.level, tmp.files⟩
          if maxBytes < bytes then inputs
          else roundRobinLoop ctx startLevel outputLevel maxBytes inputs tmp rest

/-- `SetupOtherFilesWithRoundRobinExpansion`. -/
def setupOtherFilesWithRoundRobinExpansion
    : LevelCompactionBuilder K :=
  let levelFiles := ctx.vstorage.levelFiles b.startLevel
  let bytes := totalFileSize (levelFiles.filter fun f => !f.beingCompacted)
  let maxBytes := bytes - ctx.vstorage.maxBytesForLevel b.startLevel
  let startIndex := (ctx.vstorage.filesByCompactionPri b.startLevel).headD 0
  match b.startLevelInputs.files, getRange b.startLevelInputs with
  | first :: _, some r =>
    let (extended, b) :=
      if (ctx.vstorage.getOverlappingInputs b.outputLevel r.1 r.2 none true).1 = [] then
        tryExtendNonL0TrivialMove ctx b startIndex true
      else (false, b)
    if extended ∨ maxBytes ≤ first.fileSize then b
    else
      let inputs := roundRobinLoop ctx b.startLevel b.outputLevel maxBytes
        b.startLevelInputs b.startLevelInputs (levelFiles.drop (startIndex + 1))
      { b with startLevelInputs := inputs }
  | _, _ => b

/-- `SetupOtherInputsIfNeeded`. -/
def setupOtherInputsIfNeeded :
    Bool × LevelCompactionBuilder K :=
  if b.outputLevel ≠ 0 then
    let roundRobinExpanding :=
      ctx.iopts.compactionPri = .roundRobin ∧ b.compactionReason = .levelMaxLevelSize
    let b := if roundRobinExpanding then setupOtherFilesWithRoundRobinExpansion ctx b else b
    let (free, inputs, outputInputs) := if !b.isL0TrivialMove then
      setupOtherInputs ctx.vstorage ctx.mopts ctx.iopts b.startLevelInputs b.outputLevel
        b.parentIndex b.baseIndex roundRobinExpanding
      else (true, b.startLevelInputs, ⟨b.outputLevel, []⟩)
    let compactionInputs := inputs :: (if outputInputs.files = [] then [] else [outputInputs])
    let b := { b with
      startLevelInputs := inputs
      outputLevelInputs := outputInputs
      compactionInputs := compactionInputs }
    (free && !conflicts ctx compactionInputs b.startLevel b.outputLevel, b)
  else (true, { b with compactionInputs := [b.startLevelInputs] })

/-- `PickCompaction`, up to the registration: the compaction, if there is one, and the
indices stored in the version. -/
def pickCompaction : Option (Compaction K) × (ℕ → ℕ) :=
  let b := setupInitialFiles ctx
  if b.startLevelInputs.files = [] then (none, b.nextCompactionIndex)
  else
    match setupOtherL0FilesIfNeeded ctx b with
    | (false, b) => (none, b.nextCompactionIndex)
    | (true, b) =>
      match setupOtherInputsIfNeeded ctx b with
      | (false, b) => (none, b.nextCompactionIndex)
      | (true, b) =>
        (some (Compaction.new ctx.mopts ctx.iopts b.compactionInputs b.outputLevel
          b.compactionReason), b.nextCompactionIndex)

end LevelCompactionBuilder

end BucketLSM
