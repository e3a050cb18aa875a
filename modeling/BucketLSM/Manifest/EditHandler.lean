import BucketLSM.Manifest.AtomicGroup
import BucketLSM.Manifest.VersionFold

/-!
# Handlers of version edits

`VersionEditHandler` (`db/version_edit_handler.cc`) replays the edits of a manifest: it creates and
drops column families, hands the changes of files to the builder of their family, and at the end
checks the result and makes the versions. Subclasses override some of its functions; these are
parameters here, and a subclass keeps data of its own beside the data of the class.
-/

namespace BucketLSM.Manifest

variable {K X : Type}

/-! ## The write-ahead logs of a manifest -/

structure WalAddition where
  logNumber : ℕ
  syncedSize : Option ℕ
deriving DecidableEq

/-- `WalSet`: the synced size of every log, if it is known. -/
structure WalSet where
  wals : ℕ → Option (Option ℕ) := fun _ => none
  minWalNumberToKeep : ℕ := 0

namespace WalSet

/-- `WalSet::AddWal`. -/
def addWal (wal : WalAddition) (w : WalSet) : Status × WalSet :=
  if wal.logNumber < w.minWalNumberToKeep then (.ok, w)
  else
    match w.wals wal.logNumber, wal.syncedSize with
    | none, size => (.ok, { w with wals := Function.update w.wals wal.logNumber (some size) })
    | some _, none => (.corruption, w)
    | some synced, some size =>
      if synced.any (size ≤ ·) then (.ok, w)
      else (.ok, { w with wals := Function.update w.wals wal.logNumber (some (some size)) })

/-- `WalSet::AddWals`. -/
def addWals (wals : List WalAddition) (w : WalSet) : Status × WalSet := Rep.forEach addWal wals w

/-- `WalSet::DeleteWalsBefore`. -/
def deleteWalsBefore (wal : ℕ) (w : WalSet) : WalSet :=
  if w.minWalNumberToKeep < wal then
    { wals := fun n => if n < wal then none else w.wals n, minWalNumberToKeep := wal }
  else w

end WalSet

/-! ## Edits and options -/

/-- What an edit is, in the order in which `ApplyVersionEdit` asks. -/
inductive EditKind
  | columnFamilyAdd (name : String)
  | columnFamilyDrop
  | walAddition (wals : List WalAddition)
  | walDeletion (logNumber : ℕ)
  | change
deriving DecidableEq

/-- An edit of the manifest. The boundaries of its new files are those that
`MaybeHandleFileBoundariesForNewFiles` makes of them, which may fail. -/
structure ManifestEdit (K : Type) where
  columnFamily : ℕ := 0
  kind : EditKind := .change
  logNumber : Option ℕ := none
  prevLogNumber : Option ℕ := none
  nextFile : Option ℕ := none
  lastSequence : Option ℕ := none
  maxColumnFamily : Option ℕ := none
  minLogNumberToKeep : Option ℕ := none
  comparatorName : Option String := none
  fileBoundaries : Status := .ok
  files : VersionEdit K := {}
deriving DecidableEq, Inhabited

/-- The options of a column family that recovery reads. -/
structure FamilyOptions where
  numLevels : ℕ := 7
  forceConsistencyChecks : Bool := true
deriving DecidableEq

/-- `kDefaultColumnFamilyName`. -/
def defaultColumnFamilyName : String := "default"

/-- `kPersistentStatsColumnFamilyName`. -/
def persistentStatsColumnFamilyName : String := "___rocksdb_stats_history___"

/-- The arguments of a handler, the options of the database, and what it finds on disk: whether the
files are there, whether a comparator is the right one, whether tables can be opened. -/
structure HandlerOptions (K : Type) where
  columnFamilies : List (String × FamilyOptions)
  unchanging : Bool := false
  trackFoundAndMissingFiles : Bool := false
  noErrorIfFilesMissing : Bool := false
  skipLoadTableFiles : Bool := false
  allowIncompleteValidVersion : Bool := false
  paranoidChecks : Bool := true
  epochNumberRequirement : EpochNumberRequirement := .mightMissing
  verifier : ℕ → FileVerifier K
  validateComparator : ℕ → String → Status := fun _ _ => .ok
  loadTableHandlers : ℕ → Rep K → Status := fun _ _ => .ok

/-! ## The state of a handler -/

/-- A column family that is not dropped, with its builder and its current version. -/
structure Family (K : Type) where
  id : ℕ
  builder : Rep K
  logNumber : ℕ
  current : VersionStorageInfo K

/-- `version_edit_params_`. -/
structure VersionEditParams where
  logNumber : Option ℕ := none
  prevLogNumber : Option ℕ := none
  nextFile : Option ℕ := none
  lastSequence : Option ℕ := none
  maxColumnFamily : Option ℕ := none
  minLogNumberToKeep : Option ℕ := none
deriving DecidableEq

/-- The data of a handler; `cfd` is the column family of the last edit, and `own` is what a subclass
adds. -/
structure EditHandler (K X : Type) where
  families : List (Family K) := []
  doNotOpenColumnFamilies : List (ℕ × String) := []
  params : VersionEditParams := {}
  wals : WalSet := {}
  cfd : Option ℕ := none
  own : X

namespace EditHandler

/-- The column family with an id. -/
def findFamily (s : EditHandler K X) (id : ℕ) : Option (Family K) :=
  s.families.find? fun family => family.id = id

/-- A change of a column family. -/
def modifyFamily (s : EditHandler K X) (id : ℕ) (f : Family K → Family K) : EditHandler K X :=
  { s with families := s.families.map fun family => if family.id = id then f family else family }

/-- `CreateCfAndInit`. -/
def createCfAndInit (opts : HandlerOptions K) (options : FamilyOptions) (id : ℕ)
    (logNumber : Option ℕ) (s : EditHandler K X) : EditHandler K X :=
  let base := .fresh options.numLevels .mustPresent options.forceConsistencyChecks
  { s with
    families := s.families ++
      [{ id
         builder := Rep.init (opts.verifier id) opts.trackFoundAndMissingFiles
           opts.allowIncompleteValidVersion base
         logNumber := logNumber.getD 0
         current := base }] }

/-- `Initialize`. -/
def initializeHandler (opts : HandlerOptions K) (s : EditHandler K X) : Status × EditHandler K X :=
  match opts.columnFamilies.lookup defaultColumnFamilyName with
  | none => (.invalidArgument, s)
  | some options => (.ok, s.createCfAndInit opts options 0 none)

end EditHandler

/-- The functions that a subclass overrides. -/
structure Virtuals (K X : Type) where
  maybeCreateVersionBeforeApplyEdit : VersionEdit K → ℕ → Bool → EditHandler K X →
    Status × EditHandler K X
  destroyCfAndCleanup : ℕ → EditHandler K X → EditHandler K X
  loadTables : Family K → Status

namespace EditHandler

variable (opts : HandlerOptions K) (V : Virtuals K X)

/-! ## Replaying an edit -/

variable (s : EditHandler K X)

/-- `in_do_not_open` of `CheckColumnFamilyId`. -/
def doNotOpen (id : ℕ) : Bool :=
  s.doNotOpenColumnFamilies.any fun family => family.1 = id

/-- `in_builders` of `CheckColumnFamilyId`. -/
def inBuilders (id : ℕ) : Bool := (s.findFamily id).isSome

/-- `OnColumnFamilyAdd`. -/
def onColumnFamilyAdd (name : String) (edit : ManifestEdit K) (s : EditHandler K X) :
    Status × EditHandler K X :=
  let s := { s with cfd := none }
  let id := edit.columnFamily
  if s.inBuilders id || s.doNotOpen id then (.corruption, s)
  else if name = persistentStatsColumnFamilyName then
    (.ok, { s.createCfAndInit opts {} id edit.logNumber with cfd := some id })
  else
    match opts.columnFamilies.lookup name with
    | some options =>
      (.ok, { s.createCfAndInit opts options id edit.logNumber with cfd := some id })
    | none =>
      (.ok, { s with doNotOpenColumnFamilies := s.doNotOpenColumnFamilies ++ [(id, name)] })

variable (edit : ManifestEdit K)

/-- `OnColumnFamilyDrop`. -/
def onColumnFamilyDrop (edit : ManifestEdit K) (s : EditHandler K X) : Status × EditHandler K X :=
  let s := { s with cfd := none }
  let id := edit.columnFamily
  if s.inBuilders id then (.ok, V.destroyCfAndCleanup id s)
  else if s.doNotOpen id then
    (.ok, { s with
      doNotOpenColumnFamilies := s.doNotOpenColumnFamilies.filter fun family => family.1 ≠ id })
  else (.corruption, s)

/-- `OnNonCfOperation`. -/
def onNonCfOperation (files : VersionEdit K) (s : EditHandler K X) :
    Status × EditHandler K X :=
  let s := { s with cfd := none }
  let id := edit.columnFamily
  if s.doNotOpen id then (.ok, s)
  else if !s.inBuilders id then (.corruption, s)
  else if edit.fileBoundaries ≠ .ok then (edit.fileBoundaries, s)
  else
    let made := V.maybeCreateVersionBeforeApplyEdit files id false s
    (made.1, { made.2 with cfd := some id })

/-- The log number of the family is set if it does not go down. -/
def extractLogNumber (edit : ManifestEdit K) (s : EditHandler K X) : EditHandler K X :=
  match s.cfd.bind s.findFamily, edit.logNumber with
  | some family, some logNumber =>
    if logNumber < family.logNumber then s
    else
      let s := s.modifyFamily family.id fun family => { family with logNumber }
      { s with params := { s.params with logNumber := some logNumber } }
  | _, _ => s

/-- The comparator of the family is checked. -/
def checkComparator (edit : ManifestEdit K) (s : EditHandler K X) : Status :=
  match s.cfd, edit.comparatorName with
  | some id, some name => opts.validateComparator id name
  | _, _ => .ok

/-- The other parameters that an edit sets. -/
def extractParams (params : VersionEditParams) : VersionEditParams where
  logNumber := params.logNumber
  prevLogNumber := some ((edit.prevLogNumber <|> params.prevLogNumber).getD 0)
  nextFile := edit.nextFile <|> params.nextFile
  lastSequence := edit.lastSequence <|> params.lastSequence
  maxColumnFamily := edit.maxColumnFamily <|> params.maxColumnFamily
  minLogNumberToKeep := match edit.minLogNumberToKeep with
    | some n => some (max (params.minLogNumberToKeep.getD 0) n)
    | none => params.minLogNumberToKeep

/-- `ExtractInfoFromVersionEdit`. -/
def extractInfoFromVersionEdit (edit : ManifestEdit K) (s : EditHandler K X) :
    Status × EditHandler K X :=
  let s := s.extractLogNumber edit
  match s.checkComparator opts edit with
  | .ok => (.ok, { s with params := extractParams edit s.params })
  | failed => (failed, s)

/-- What an edit does by its kind. -/
def dispatch (files : VersionEdit K) (s : EditHandler K X) :
    Status × EditHandler K X :=
  match edit.kind with
  | .columnFamilyAdd name => s.onColumnFamilyAdd opts name edit
  | .columnFamilyDrop => s.onColumnFamilyDrop V edit
  | .walAddition wals => ((s.wals.addWals wals).1, { s with wals := (s.wals.addWals wals).2 })
  | .walDeletion logNumber => (.ok, { s with wals := s.wals.deleteWalsBefore logNumber })
  | .change => s.onNonCfOperation V edit files

/-- The changes of files of an edit in the log. -/
def filesOf (e : LogEdit (ManifestEdit K)) : VersionEdit K :=
  { e.body.files with isInAtomicGroup := e.remainingEntries.isSome }

/-- `ApplyVersionEdit`. In a group the edits share the variable for the column family; it is reset
for an edit outside. -/
def applyVersionEdit (e : LogEdit (ManifestEdit K)) (s : EditHandler K X) :
    Status × EditHandler K X :=
  let s := if e.remainingEntries.isSome then s else { s with cfd := none }
  match s.dispatch opts V e.body (filesOf e) with
  | (.ok, s) => s.extractInfoFromVersionEdit opts e.body
  | failed => failed

/-! ## The end of the manifest -/

/-- `missing_info`, or the first check of `CheckIterationResult`. -/
def missingInfo : Bool :=
  s.params.logNumber.isNone || s.params.nextFile.isNone || s.params.lastSequence.isNone

/-- The tables of all families are loaded, until this fails for one. -/
def loadAllTables : List (Family K) → Status
  | [] => .ok
  | family :: families =>
    match V.loadTables family with
    | .ok => loadAllTables families
    | .notFound => .corruption
    | failed => failed

/-- `CheckIterationResult`. -/
def checkIterationResult (status : Status) (s : EditHandler K X) : Status × EditHandler K X :=
  if status ≠ .ok then (status, s)
  else if s.missingInfo then (.corruption, s)
  else if !opts.unchanging && s.doNotOpenColumnFamilies ≠ [] then (.invalidArgument, s)
  else if s.families.any fun family => !family.builder.checkConsistencyForNumLevels then
    (.invalidArgument, s)
  else
    match loadAllTables V s.families with
    | .ok => Rep.forEach (fun id => V.maybeCreateVersionBeforeApplyEdit {} id true)
        (s.families.map Family.id) s
    | failed => (failed, s)

/-! ## The functions of the class itself -/

/-- `DestroyCfAndCleanup`. -/
def destroyCfAndCleanup (id : ℕ) (s : EditHandler K X) : EditHandler K X :=
  { s with families := s.families.filter fun family => family.id ≠ id }

variable [LinearOrder K]

/-- The version that is made of a builder, with the status of `SaveTo`. -/
def saveTo (b : Rep K) : Status × VersionStorageInfo K :=
  b.saveTo (.fresh b.numLevels opts.epochNumberRequirement b.base.forceConsistencyChecks)

end EditHandler

end BucketLSM.Manifest
