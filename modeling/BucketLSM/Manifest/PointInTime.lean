import BucketLSM.Manifest.AtomicVersions
import BucketLSM.Manifest.MissingFiles

/-!
# Best-efforts recovery

`VersionEditHandlerPointInTime` (`db/version_edit_handler.cc`) recovers a database with missing
files: for each column family it installs the last version all of whose files are there, if the
other column families allow it. An atomic group of the manifest is reflected by all column families
in it, or by none.
-/

namespace BucketLSM.Manifest

open Manifest.Rep List HandlerOptions EditHandler AtomicVersions

variable {K : Type}

/-- What `VersionEditHandlerPointInTime` adds to the data of a handler. -/
structure PointInTime (K : Type) where
  updates : AtomicVersions (VersionStorageInfo K) := {}
  inAtomicGroup : Bool := false

/-- The arguments that `VersionEditHandlerPointInTime` sets, with
`allow_incomplete_valid_version` off. -/
def HandlerOptions.pointInTime (opts : HandlerOptions K) : HandlerOptions K :=
  { opts with
    trackFoundAndMissingFiles := true
    noErrorIfFilesMissing := true
    allowIncompleteValidVersion := false }

/-- The order in which `builders_`, an unordered map, goes through its column families. -/
structure MapOrder where
  order : List ℕ → List ℕ
  perm : ∀ ids, (order ids).Perm ids

namespace PointInTime

variable (opts : HandlerOptions K)

/-- `DestroyCfAndCleanup`. -/
def destroyCfAndCleanup (id : ℕ) (s : EditHandler K (PointInTime K)) :
    EditHandler K (PointInTime K) :=
  let s := EditHandler.destroyCfAndCleanup id s
  { s with own := { s.own with updates := s.own.updates.drop id } }

/-- `OnAtomicGroupReplayEnd`. -/
def onAtomicGroupReplayEnd (s : EditHandler K (PointInTime K)) :
    Status × EditHandler K (PointInTime K) :=
  if !s.own.inAtomicGroup then (.corruption, s)
  else
    let s := { s with own := { s.own with inAtomicGroup := false } }
    let entries := s.own.updates.atomicUpdateVersions
    if s.families.length ≠ entries.length then (.corruption, s)
    else if s.families.any fun family => !s.own.updates.contains family.id then (.corruption, s)
    else if entries.any fun entry => !s.inBuilders entry.1 then (.corruption, s)
    else (.ok, s)

/-- `LoadSavePointTableHandlers`, on the save point. -/
def loadSavePointTableHandlers (id : ℕ) (savePoint : Rep K) : Status :=
  if savePoint.validVersionAvailable then opts.loadTableHandlers id savePoint
  else .invalidArgument

variable [LinearOrder K]

/-- `SaveSavePointTo` for a new version, on the save point. -/
def saveSavePointTo (savePoint : Rep K) : Status × VersionStorageInfo K :=
  if savePoint.validVersionAvailable then EditHandler.saveTo opts savePoint
  else (.invalidArgument, (EditHandler.saveTo opts savePoint).2)

/-- A version of the save point is made. A version whose tables cannot be opened because they are
damaged is not made. -/
def createVersion (id : ℕ) (savePoint : Rep K) (s : EditHandler K (PointInTime K)) :
    Status × EditHandler K (PointInTime K) :=
  match loadSavePointTableHandlers opts id savePoint with
  | .ok =>
    match saveSavePointTo opts savePoint with
    | (.ok, version) =>
      (.ok, { s with own := { s.own with updates := s.own.updates.add id version } })
    | (failed, _) => (failed, s)
  | .corruption => (.ok, s)
  | failed => (failed, s)

/-- `MaybeCreateVersionBeforeApplyEdit`. -/
def maybeCreateVersionBeforeApplyEdit (edit : VersionEdit K) (id : ℕ) (force : Bool)
    (s : EditHandler K (PointInTime K)) : Status × EditHandler K (PointInTime K) :=
  match s.findFamily id with
  | none => (.ok, s)
  | some family =>
    let savePoint := family.builder.updateValidVersionAvailable
    let applied := savePoint.apply edit
    let builder := applied.2.updateValidVersionAvailable
    let s' := s.modifyFamily id fun family => { family with builder }
    if applied.1 = .ok ∧ !s.missingInfo ∧ !s.own.inAtomicGroup ∧
        (!builder.validVersionAvailable ∧ savePoint.validVersionAvailable ∨
          builder.validVersionAvailable ∧ force) then
      createVersion opts id savePoint s'
    else (applied.1, s')

/-- The functions of `VersionEditHandlerPointInTime`. -/
def virtuals : Virtuals K (PointInTime K) where
  maybeCreateVersionBeforeApplyEdit := maybeCreateVersionBeforeApplyEdit opts
  destroyCfAndCleanup := destroyCfAndCleanup
  loadTables _ := .ok

/-- `OnAtomicGroupReplayBegin`. -/
def onAtomicGroupReplayBegin (order : MapOrder) (s : EditHandler K (PointInTime K)) :
    Status × EditHandler K (PointInTime K) :=
  if s.own.inAtomicGroup then (.corruption, s)
  else
    match Rep.forEach (fun id => maybeCreateVersionBeforeApplyEdit opts {} id true)
        (order.order (s.families.map Family.id)) s with
    | (.ok, s) =>
      (.ok, { s with
        own :=
          { updates := s.own.updates.beginGroup (s.families.map Family.id)
            inAtomicGroup := true } })
    | failed => failed

/-- The handler, as the loop over the manifest sees it. -/
def handler (order : MapOrder) : Handler (ManifestEdit K) (EditHandler K (PointInTime K)) where
  applyVersionEdit := EditHandler.applyVersionEdit opts (virtuals opts)
  onAtomicGroupReplayBegin s := onAtomicGroupReplayBegin opts order { s with cfd := none }
  onAtomicGroupReplayEnd := onAtomicGroupReplayEnd

/-- `CheckIterationResult`, with the versions that are installed. -/
def checkIterationResult (status : Status) (s : EditHandler K (PointInTime K)) :
    Status × List (ℕ × VersionStorageInfo K) :=
  match EditHandler.checkIterationResult opts (virtuals opts) status s with
  | (.ok, s) =>
    (.ok, s.families.filterMap fun family =>
      (s.own.updates.versions family.id).map fun version => (family.id, version))
  | (failed, _) => (failed, [])

/-- `Iterate` of a `VersionEditHandlerPointInTime` on the edits that can be read; `readStatus` is
the status of the reader after them. -/
def recover (order : MapOrder) (edits : List (LogEdit (ManifestEdit K))) (readStatus : Status) :
    Status × List (ℕ × VersionStorageInfo K) :=
  let opts := opts.pointInTime
  match EditHandler.initializeHandler opts { own := {} } with
  | (.ok, s) =>
    match (handler opts order).iterate edits {} s with
    | (.ok, _, s) => checkIterationResult opts readStatus s
    | (failed, _, s) => checkIterationResult opts failed s
  | (failed, s) => checkIterationResult opts failed s

end PointInTime

/-! ## The builders -/

/-- The options of a handler that does not look for files. -/
def HandlerOptions.untracked (opts : HandlerOptions K) : HandlerOptions K :=
  { opts with trackFoundAndMissingFiles := false }

section Builders

variable [LinearOrder K] {opts : HandlerOptions K} {id : ℕ} {log : FamilyLog K} {b b' : Rep K}

/-- The builder of a column family has applied its edits, knows the missing files, and says that
there is a valid version only if there is a complete one. -/
structure TracksEdits (opts : HandlerOptions K) (id : ℕ) (log : FamilyLog K) (b : Rep K) :
    Prop where
  holds : HoldsEdits opts.pointInTime.untracked id log b.untracked
  tracks : b.Tracks
  handler : b.handler = opts.verifier id
  complete : b.allowIncompleteValidVersion = false
  valid : b.versionUpdatedSinceLastCheck = false → b.validVersionAvailable →
    b.containsCompleteVersion

/-- A builder begins with the version of its family, and no edits. -/
lemma tracksEdits_start (opts : HandlerOptions K) (id : ℕ) (name : String) :
    TracksEdits opts id { name } (opts.pointInTime.startBuilder id name) := by
  refine ⟨rfl, ⟨filesInv_init (isVersion_fresh _ _ _).distinct, rfl, rfl, Pairwise.nil,
    fun {k level f} hf _ => ?_, fun m hm => ?_, fun n hn => ?_⟩, rfl, rfl, fun _ _ => ?_⟩
  · have hfind : (opts.pointInTime.startVersion name).findFile k = some (level, f) := hf
    obtain ⟨hmem, -⟩ := ((isVersion_fresh _ _ _).distinct.findFile_eq_some).1 hfind
    rw [levelFiles_fresh] at hmem
    exact absurd hmem (by simp)
  · exact absurd hm (by simp [startBuilder, init])
  · exact absurd hn (by simp [startBuilder, init])
  · simp [containsCompleteVersion, startBuilder, init]

section

variable (h : TracksEdits opts id log b)

include h

/-- The base passes the checks. -/
lemma TracksEdits.consistent : checkConsistency b.base = .ok := by
  have hbase : b.base = opts.pointInTime.untracked.startVersion log.name := h.holds.base_eq
  rw [hbase]
  exact checkConsistency_fresh _ _ _

/-- One more edit. -/
lemma TracksEdits.apply {edit : VersionEdit K} (happly : b.apply edit = (.ok, b')) :
    TracksEdits opts id { log with edits := log.edits ++ [edit] } b' := by
  have htracks := apply_tracks h.tracks happly
  obtain ⟨⟨-, hsetup⟩, -⟩ := apply_table h.tracks.filesInv happly
  refine ⟨forEach_concat h.holds (apply_ignoresTracking _ _ _ happly), htracks,
    hsetup.handler.trans h.handler, hsetup.allowIncomplete.trans h.complete, fun hsame hvalid => ?_⟩
  rcases apply_versionUpdated h.tracks.filesInv h.tracks.track happly with hnew | rfl
  · rw [hsame] at hnew
    cases hnew
  · exact h.valid hsame hvalid

/-- Looking at what is there changes no edits. -/
lemma TracksEdits.update : TracksEdits opts id log b.updateValidVersionAvailable := by
  rw [updateValidVersionAvailable]
  split_ifs
  · obtain ⟨⟨distinct, deleted, moved, added, present, once, missing⟩, track, base, ascending,
      files, blobFiles, high⟩ := h.tracks
    refine ⟨h.holds, ⟨⟨distinct, deleted, moved, added, present, once, missing⟩, track, base,
      ascending, files, blobFiles, high⟩, h.handler, h.complete, fun _ hvalid => ?_⟩
    have hcomplete : b.computeValidVersionAvailable = true := hvalid
    rw [computeValidVersionAvailable, h.complete, Bool.and_false, Bool.false_and,
      Bool.or_false] at hcomplete
    exact hcomplete
  · exact h

/-- The version of a save point that is valid is the state of the column family, and its files are
there. -/
lemma TracksEdits.saveTo (hvalid : b.updateValidVersionAvailable.validVersionAvailable) :
    ∃ c, HoldsEdits opts.pointInTime.untracked id log c ∧
      (saveTo opts.pointInTime b.updateValidVersionAvailable).2 =
        c.saveVersion opts.epochNumberRequirement ∧
      Rep.AllPresent (opts.verifier id) (c.saveVersion opts.epochNumberRequirement) := by
  have hupdate := h.update
  have hasked : b.updateValidVersionAvailable.versionUpdatedSinceLastCheck = false := by
    rw [updateValidVersionAvailable]
    split_ifs with hnew
    · rfl
    · exact Bool.eq_false_iff.2 hnew
  have hcomplete := hupdate.valid hasked hvalid
  have hsaved := saveVersion_of_complete hupdate.tracks hcomplete opts.epochNumberRequirement
  refine ⟨_, hupdate.holds, ?_, ?_⟩
  · rw [saveTo_eq]
    exact hsaved
  · rw [← hsaved, ← hupdate.handler]
    exact allPresent_of_complete hupdate.tracks hcomplete _

end

end Builders

/-! ## Manifests of single edits and groups -/

/-- The edit adds and drops no column family. -/
def KeepsFamilies (edit : ManifestEdit K) : Prop :=
  (∀ name, edit.kind ≠ .columnFamilyAdd name) ∧ edit.kind ≠ .columnFamilyDrop

/-- A single edit, or a complete atomic group that adds and drops no column family. -/
inductive ManifestItem (K : Type)
  | single (edit : ManifestEdit K)
  | group (edits : List (LogEdit (ManifestEdit K))) (complete : IsGroup edits)
      (keeps : ∀ e ∈ edits, KeepsFamilies e.body)

namespace ManifestItem

/-- The edits in the log. -/
def edits : ManifestItem K → List (LogEdit (ManifestEdit K))
  | single edit => [⟨edit, none⟩]
  | group edits _ _ => edits

/-- The column families that have edits in a group. -/
def participants (edits : List (LogEdit (ManifestEdit K))) : List ℕ :=
  (edits.filter fun e => e.body.kind = .change).map fun e => e.body.columnFamily

/-- What an item means to the versions. -/
def event : ManifestItem K → Event
  | single edit =>
    match edit.kind with
    | .columnFamilyAdd _ => .add edit.columnFamily
    | .columnFamilyDrop => .drop edit.columnFamily
    | _ => .other
  | group edits _ _ => .group (participants edits)

end ManifestItem

open ManifestItem (event single)

/-- The manifest that some items make. -/
def manifestOf (items : List (ManifestItem K)) : List (LogEdit (ManifestEdit K)) :=
  items.flatMap ManifestItem.edits

/-- The edits of one more item come last. -/
lemma manifestOf_append (items : List (ManifestItem K)) (item : ManifestItem K) :
    manifestOf (items ++ [item]) = manifestOf items ++ item.edits := by
  simp [manifestOf]

/-- The edits of a column family go on, and it is the same column family. -/
structure FamilyLog.IsFrontOf (log log' : FamilyLog K) : Prop where
  name : log'.name = log.name
  edits : log.edits <+: log'.edits

/-- An edit that keeps the families only adds to the log of a family. -/
lemma FamilyLog.isFrontOf_step {id : ℕ} {log log' : FamilyLog K} (h : log.IsFrontOf log')
    {e : LogEdit (ManifestEdit K)} (he : e.body.columnFamily ≠ id ∨ KeepsFamilies e.body) :
    log.IsFrontOf (log'.step id e) := by
  rw [FamilyLog.step]
  split_ifs with hid
  · have hkeeps := he.resolve_left (not_not.2 hid)
    cases hkind : e.body.kind with
    | columnFamilyAdd name => exact absurd hkind (hkeeps.1 name)
    | columnFamilyDrop => exact absurd hkind hkeeps.2
    | walAddition wals => exact h
    | walDeletion logNumber => exact h
    | change => exact ⟨h.name, h.edits.trans (prefix_append _ _)⟩
  · exact h

/-- So do all edits of a group. -/
lemma familyLog_isFrontOf {id : ℕ} {done more : List (LogEdit (ManifestEdit K))}
    (h : ∀ e ∈ more, e.body.columnFamily ≠ id ∨ KeepsFamilies e.body) :
    (familyLog id done).IsFrontOf (familyLog id (done ++ more)) := by
  induction more using reverseRecOn with
  | nil =>
    rw [append_nil]
    exact ⟨rfl, prefix_rfl⟩
  | append_singleton more e ih =>
    rw [← append_assoc, familyLog_append]
    exact FamilyLog.isFrontOf_step (ih fun e he => h e (mem_append_left _ he)) (h e (by simp))

/-- An item that neither adds nor drops a column family. -/
lemma ManifestItem.keeps_of_event {item : ManifestItem K} {id : ℕ} (hadd : item.event ≠ .add id)
    (hdrop : item.event ≠ .drop id) :
    ∀ e ∈ item.edits, e.body.columnFamily ≠ id ∨ KeepsFamilies e.body := by
  intro e he
  cases item with
  | single edit =>
    obtain rfl : e = ⟨edit, none⟩ := by simpa [edits] using he
    by_cases hid : edit.columnFamily = id
    · refine .inr ⟨fun name hkind => hadd ?_, fun hkind => hdrop ?_⟩
      · rw [event, show edit.kind = _ from hkind, hid]
      · rw [event, show edit.kind = _ from hkind, hid]
    · exact .inl hid
  | group edits complete keeps => exact .inr (keeps e he)

/-- The version is the state of a column family after the first `n` items, as a handler would save
it that does not look for files, and its files are there. -/
structure StateAfter [LinearOrder K] (opts : HandlerOptions K) (items : List (ManifestItem K))
    (id n : ℕ) (version : VersionStorageInfo K) : Prop where
  le : n ≤ items.length
  front : (familyLog id (manifestOf (items.take n))).IsFrontOf (familyLog id (manifestOf items))
  state : ∃ b, HoldsEdits opts.pointInTime.untracked id (familyLog id (manifestOf (items.take n)))
    b ∧ version = b.saveVersion opts.epochNumberRequirement
  present : Rep.AllPresent (opts.verifier id) version

/-- A state after some items is still one when items follow. -/
lemma StateAfter.append [LinearOrder K] {opts : HandlerOptions K} {items : List (ManifestItem K)}
    {id n : ℕ} {version : VersionStorageInfo K} (h : StateAfter opts items id n version)
    {item : ManifestItem K} (hadd : item.event ≠ .add id) (hdrop : item.event ≠ .drop id) :
    StateAfter opts (items ++ [item]) id n version := by
  have htake : (items ++ [item]).take n = items.take n := take_append_of_le_length h.le
  refine ⟨h.le.trans (by simp), ?_, htake ▸ h.state, h.present⟩
  have hmore : (familyLog id (manifestOf items)).IsFrontOf
      (familyLog id (manifestOf items ++ item.edits)) :=
    familyLog_isFrontOf (ManifestItem.keeps_of_event hadd hdrop)
  rw [htake, manifestOf_append]
  exact ⟨hmore.name.trans h.front.name, h.front.edits.trans hmore.edits⟩

/-! ## The steps of the handler -/

namespace PointInTime

variable [LinearOrder K] {opts : HandlerOptions K} {items : List (ManifestItem K)}
  {s s' : EditHandler K (PointInTime K)} {id : ℕ}

/-- The version of a save point is added, or there is no new version. -/
lemma createVersion_ok {savePoint : Rep K} (h : createVersion opts id savePoint s = (.ok, s')) :
    s' = s ∨ savePoint.validVersionAvailable ∧ s' = { s with own :=
          { s.own with
            updates := s.own.updates.add id (saveTo opts savePoint).2 } } := by
  rw [createVersion] at h
  split at h
  · next hload =>
    have hvalid : savePoint.validVersionAvailable = true := by
      rw [loadSavePointTableHandlers] at hload
      split_ifs at hload with hvalid
      exact hvalid
    rw [saveSavePointTo, if_pos hvalid] at h
    split at h
    · next version hsave =>
      obtain ⟨-, rfl⟩ := Prod.mk.inj h
      rw [hsave]
      exact .inr ⟨hvalid, rfl⟩
    · next hfailed heq => exact (hfailed (Prod.mk.inj h).1).elim
  · exact .inl (Prod.mk.inj h).2.symm
  · next hfailed _ => exact (hfailed (Prod.mk.inj h).1).elim

/-- An edit is applied to the builder of a column family, and a version of the save point may be
added outside of groups. -/
structure Created (opts : HandlerOptions K) (edit : VersionEdit K) (id : ℕ) (family : Family K)
    (s s' : EditHandler K (PointInTime K)) (b : Rep K) : Prop where
  apply : family.builder.updateValidVersionAvailable.apply edit = (.ok, b)
  families : s'.families = (s.modifyFamily id fun family =>
    { family with builder := b.updateValidVersionAvailable }).families
  doNotOpen : s'.doNotOpenColumnFamilies = s.doNotOpenColumnFamilies
  own : s'.own = s.own ∨ s.own.inAtomicGroup = false ∧
    family.builder.updateValidVersionAvailable.validVersionAvailable ∧ s'.own =
      { s.own with
        updates := s.own.updates.add id
          (EditHandler.saveTo opts family.builder.updateValidVersionAvailable).2 }

/-- What `MaybeCreateVersionBeforeApplyEdit` does when it succeeds. -/
lemma maybeCreate_ok {edit : VersionEdit K} {force : Bool}
    (h : maybeCreateVersionBeforeApplyEdit opts edit id force s = (.ok, s')) :
    s.findFamily id = none ∧ s' = s ∨
    ∃ family b, s.findFamily id = some family ∧ Created opts edit id family s s' b := by
  rw [maybeCreateVersionBeforeApplyEdit] at h
  split at h
  · next hnone => exact .inl ⟨hnone, (Prod.mk.inj h).2.symm⟩
  · next family hfind =>
    refine .inr ⟨family, (family.builder.updateValidVersionAvailable.apply edit).2, hfind, ?_⟩
    simp only at h
    split_ifs at h with hcreate
    · obtain ⟨happly, -, hgroup, -⟩ := hcreate
      rcases createVersion_ok h with rfl | ⟨hvalid, rfl⟩
      · exact ⟨Prod.ext happly rfl, rfl, rfl, .inl rfl⟩
      · exact ⟨Prod.ext happly rfl, rfl, rfl, .inr ⟨by simpa using hgroup, hvalid, rfl⟩⟩
    · obtain ⟨happly, rfl⟩ := Prod.mk.inj h
      exact ⟨Prod.ext happly rfl, rfl, rfl, .inl rfl⟩

/-- The functions of the class hand the edits to the builders. -/
lemma follows_virtuals : (virtuals opts.pointInTime).Follows (TracksEdits opts) := by
  refine ⟨fun {edit id s s'} nodup h => ?_, fun id s => ⟨rfl, rfl⟩⟩
  rcases maybeCreate_ok h with ⟨hnone, rfl⟩ | ⟨family, b, hfind, hcreated⟩
  · refine ⟨rfl, rfl, fun family hmem => ⟨family, hmem, rfl, fun _ => rfl, fun hid => ?_⟩⟩
    exact absurd hid (findFamily_eq_none.1 hnone family hmem)
  · refine edited_of_modifyFamily nodup hfind hcreated.families ?_ hcreated.doNotOpen ?_
    · exact fun _ => rfl
    · exact fun log hlog => (hlog.update.apply hcreated.apply).update

/-! ### The invariant -/

/-- The column family is not dropped and has a builder. -/
def Live (s : EditHandler K (PointInTime K)) (id : ℕ) : Prop := id ∈ s.families.map Family.id

/-- The column family is not dropped; it may be one that is not opened. -/
def Known (s : EditHandler K (PointInTime K)) (id : ℕ) : Prop :=
  Live s id ∨ id ∈ s.doNotOpenColumnFamilies.map Prod.fst

/-- The versions of the handler, each with the number of items it reflects, follow the protocol. -/
def Versioned (opts : HandlerOptions K) (items : List (ManifestItem K))
    (s : EditHandler K (PointInTime K)) : Prop :=
  ∃ ranked : AtomicVersions (VersionStorageInfo K × ℕ), ranked.map Prod.fst = s.own.updates ∧
    Protocol (Known s) (Live s) Prod.snd (items.map ManifestItem.event) ranked ∧
    ranked.All fun id version => StateAfter opts items id version.2 version.1

/-- What holds of the handler between two items. -/
structure RunInv (opts : HandlerOptions K) (items : List (ManifestItem K))
    (s : EditHandler K (PointInTime K)) : Prop where
  families : FamilyInv (TracksEdits opts) (manifestOf items) s
  outside : s.own.inAtomicGroup = false
  versions : Versioned opts items s

section

variable (h : Versioned opts items s)

include h

/-- It reads nothing but the ids and the versions. -/
lemma Versioned.congr (hids : s'.families.map Family.id = s.families.map Family.id)
    (hopen : s'.doNotOpenColumnFamilies = s.doNotOpenColumnFamilies)
    (hown : s'.own.updates = s.own.updates) : Versioned opts items s' := by
  obtain ⟨ranked, hmap, hprotocol, hstate⟩ := h
  have hlive : Live s' = Live s := by
    funext id
    rw [Live, Live, hids]
  have hknown : Known s' = Known s := by
    funext id
    rw [Known, Known, hlive, hopen]
  exact ⟨ranked, hmap.trans hown.symm, hlive ▸ hknown ▸ hprotocol, hstate⟩

/-- A version is added. -/
lemma Versioned.add (hlive : Live s id)
    {version : VersionStorageInfo K} (hversion : StateAfter opts items id items.length version)
    (hids : s'.families.map Family.id = s.families.map Family.id)
    (hopen : s'.doNotOpenColumnFamilies = s.doNotOpenColumnFamilies)
    (hown : s'.own.updates = s.own.updates.add id version) : Versioned opts items s' := by
  obtain ⟨ranked, hmap, hprotocol, hstate⟩ := h
  refine Versioned.congr (s := { s with own := s'.own })
    ⟨ranked.add id (version, items.length), ?_, ?_, ?_⟩ hids hopen rfl
  · rw [← map_add, hmap]
    exact hown.symm
  · exact hprotocol.add hlive (by simp)
  · exact hstate.add hversion

/-- An item that is no group and neither adds nor drops a column family. -/
lemma Versioned.other {item : ManifestItem K}
    (hitem : item.event = .other) : Versioned opts (items ++ [item]) s := by
  obtain ⟨ranked, hmap, hprotocol, hstate⟩ := h
  refine ⟨ranked, hmap, ?_, hstate.imp fun id version hversion =>
    hversion.append (by simp [hitem]) (by simp [hitem])⟩
  rw [map_append, map_singleton, hitem]
  exact hprotocol.append (fun ids heq => by cases heq) hprotocol.live_known (fun hknown _ => hknown)
    (fun hlive => hlive) fun _ hlive => hlive

/-- A column family is added. -/
lemma Versioned.added {item : ManifestItem K} {name : String}
    {edit : ManifestEdit K} (hitem : item.event = .add edit.columnFamily)
    {opts' : HandlerOptions K} (hadded : EditHandler.FamilyAdded opts' name edit s s') :
    Versioned opts (items ++ [item]) s' := by
  obtain ⟨ranked, hmap, hprotocol, hstate⟩ := h
  have hnew : ¬ Known s edit.columnFamily := by
    rintro (hlive | hclosed)
    · obtain ⟨family, hmem, hid⟩ := mem_map.1 hlive
      exact hadded.new family hmem hid
    · obtain ⟨x, hmem, hid⟩ := mem_map.1 hclosed
      exact hadded.closed x hmem hid
  have hlive : ∀ {id}, Live s id → Live s' id := by
    intro id hlive
    rcases hadded.families with ⟨hfamilies, -⟩ | ⟨hfamilies, -⟩
    · rw [Live, hfamilies, map_append]
      exact mem_append_left _ hlive
    · rw [Live, hfamilies]
      exact hlive
  have hback : ∀ {id}, Live s' id → Live s id ∨ id = edit.columnFamily := by
    intro id hlive
    rcases hadded.families with ⟨hfamilies, -⟩ | ⟨hfamilies, -⟩
    · rw [Live, hfamilies, map_append, map_singleton, mem_append, mem_singleton] at hlive
      exact hlive
    · rw [Live, hfamilies] at hlive
      exact .inl hlive
  have hknown : ∀ {id}, Known s id → Known s' id := by
    rintro id (hknown | hclosed)
    · exact .inl (hlive hknown)
    · refine .inr ?_
      rcases hadded.families with ⟨-, hopen, -⟩ | ⟨-, hopen, -⟩
      · rwa [hopen]
      · rw [hopen, map_append]
        exact mem_append_left _ hclosed
  have hown : s'.own = s.own := by
    rcases hadded.families with ⟨-, -, hown⟩ | ⟨-, -, hown⟩ <;> exact hown
  refine ⟨ranked, hown ▸ hmap, ?_, (hprotocol.stored.and hstate).imp fun id version hversion => ?_⟩
  · rw [map_append, map_singleton, hitem]
    refine hprotocol.append (fun ids heq => by cases heq) .inl (fun hknown' _ => hknown hknown')
      hlive fun {id} hknown' hlive' => (hback hlive').resolve_right fun hid => ?_
    exact hnew (hid ▸ hknown')
  · refine hversion.2.append (fun heq => ?_) (by simp [hitem])
    rw [hitem] at heq
    cases heq
    exact hnew (.inl hversion.1.1)

/-- A column family is dropped. -/
lemma Versioned.dropped {item : ManifestItem K} (hitem : item.event = .drop id)
    (hfamilies : s'.families = s.families.filter fun family => family.id ≠ id)
    (hopen : s'.doNotOpenColumnFamilies = s.doNotOpenColumnFamilies)
    (hown : s'.own.updates = s.own.updates.drop id) : Versioned opts (items ++ [item]) s' := by
  obtain ⟨ranked, hmap, hprotocol, hstate⟩ := h
  have hlive : ∀ {id'}, Live s' id' ↔ Live s id' ∧ id' ≠ id := by
    intro id'
    rw [Live, hfamilies, Live]
    constructor
    · intro hmem
      obtain ⟨family, hfamily, rfl⟩ := mem_map.1 hmem
      obtain ⟨hfamily, hne⟩ := mem_filter.1 hfamily
      exact ⟨mem_map_of_mem hfamily, by simpa using hne⟩
    · rintro ⟨hmem, hne⟩
      obtain ⟨family, hfamily, rfl⟩ := mem_map.1 hmem
      exact mem_map_of_mem (mem_filter.2 ⟨hfamily, by simpa using hne⟩)
  refine ⟨ranked.drop id, ?_, ?_, ?_⟩
  · rw [← AtomicVersions.map_drop, hmap]
    exact hown.symm
  · rw [map_append, map_singleton, hitem]
    refine hprotocol.drop .inl (fun {id'} hknown hne => ?_) hlive
    rcases hknown with hknown | hclosed
    · exact .inl (hlive.2 ⟨hknown, hne⟩)
    · exact .inr (hopen ▸ hclosed)
  · rw [hprotocol.drop_eq]
    refine (hstate.erase fun id' version hne hversion => ?_).applyIfCompleted
    refine hversion.append (by simp [hitem]) fun heq => ?_
    rw [hitem] at heq
    cases heq
    exact hne rfl

/-- A column family that was not opened is dropped. -/
lemma Versioned.closed {item : ManifestItem K}
    (hitem : item.event = .drop id) (hclosed : ¬ Live s id) (hfamilies : s'.families = s.families)
    (hopen : s'.doNotOpenColumnFamilies = s.doNotOpenColumnFamilies.filter fun x => x.1 ≠ id)
    (hown : s'.own = s.own) : Versioned opts (items ++ [item]) s' := by
  obtain ⟨ranked, hmap, hprotocol, hstate⟩ := h
  have hlive : ∀ {id'}, Live s' id' ↔ Live s id' := by
    intro id'
    rw [Live, hfamilies, Live]
  refine ⟨ranked, hown ▸ hmap, ?_, (hprotocol.stored.and hstate).imp fun id' version hversion => ?_⟩
  · rw [map_append, map_singleton, hitem]
    refine hprotocol.append (fun ids heq => by cases heq) .inl (fun {id'} hknown hne => ?_)
      hlive.2 fun _ hlive' => hlive.1 hlive'
    rcases hknown with hknown | hmem
    · exact .inl (hlive.2 hknown)
    · obtain ⟨x, hx, rfl⟩ := mem_map.1 hmem
      refine .inr (hopen ▸ mem_map_of_mem (mem_filter.2 ⟨hx, ?_⟩))
      have hid : x.1 ≠ id := fun heq => hne (heq ▸ rfl)
      simpa using hid
  · refine hversion.2.append (by simp [hitem]) fun heq => ?_
    rw [hitem] at heq
    cases heq
    exact hclosed hversion.1.1

end

/-- Making a version before an edit. -/
lemma RunInv.versions_create (inv : RunInv opts items s) {edit : VersionEdit K} {force : Bool}
    (h : maybeCreateVersionBeforeApplyEdit opts.pointInTime edit id force s = (.ok, s')) :
    Versioned opts items s' ∧ s'.own.inAtomicGroup = false := by
  rcases maybeCreate_ok h with ⟨-, rfl⟩ | ⟨family, b, hfind, hcreated⟩
  · exact ⟨inv.versions, inv.outside⟩
  · have hids : s'.families.map Family.id = s.families.map Family.id := by
      rw [hcreated.families]
      exact modifyFamily_ids fun _ => rfl
    obtain ⟨hfamily, rfl⟩ := (findFamily_eq_some inv.families.nodup).1 hfind
    rcases hcreated.own with hown | ⟨-, hvalid, hown⟩
    · exact ⟨inv.versions.congr hids hcreated.doNotOpen (by rw [hown]), hown ▸ inv.outside⟩
    · obtain ⟨c, hholds, hsaved, hpresent⟩ := (inv.families.log family hfamily).saveTo hvalid
      refine ⟨inv.versions.add (mem_map_of_mem hfamily) ?_ hids hcreated.doNotOpen
        (by rw [hown]), by rw [hown]; exact inv.outside⟩
      rw [hsaved]
      refine ⟨le_rfl, ?_, ⟨c, ?_, rfl⟩, hpresent⟩
      · rw [take_length]
        exact ⟨rfl, prefix_rfl⟩
      · rw [take_length]
        exact hholds

/-- Making a version by force. -/
lemma RunInv.force (inv : RunInv opts items s) {force : Bool}
    (h : maybeCreateVersionBeforeApplyEdit opts.pointInTime {} id force s = (.ok, s')) :
    RunInv opts items s' := by
  obtain ⟨hversions, houtside⟩ := inv.versions_create h
  refine ⟨?_, houtside, hversions⟩
  rcases maybeCreate_ok h with ⟨-, rfl⟩ | ⟨family, b, hfind, hcreated⟩
  · exact inv.families
  · obtain ⟨hfamily, hid⟩ := (findFamily_eq_some inv.families.nodup).1 hfind
    have hupdate := (inv.families.log family hfamily).update
    have hsame : b = family.builder.updateValidVersionAvailable :=
      (Prod.mk.inj ((apply_empty hupdate.consistent).symm.trans hcreated.apply)).2.symm
    have hids : s'.families.map Family.id = s.families.map Family.id := by
      rw [hcreated.families]
      exact modifyFamily_ids fun _ => rfl
    refine ⟨hids ▸ inv.families.nodup, fun x hx family' hmem heq => ?_, fun family' hmem => ?_⟩
    · have hmem' := hids ▸ mem_map_of_mem hmem
      obtain ⟨g, hg, hgid⟩ := mem_map.1 hmem'
      exact inv.families.apart x (hcreated.doNotOpen ▸ hx) g hg (hgid.trans heq)
    · rw [hcreated.families] at hmem
      obtain ⟨g, hg, rfl⟩ := mem_map.1 hmem
      split_ifs with hgid
      · obtain rfl : g = family :=
          inj_on_of_nodup_map inv.families.nodup hg hfamily (hgid.trans hid.symm)
        rw [hsame]
        exact hupdate.update
      · exact inv.families.log g hg

/-! ### Single edits -/

/-- Steps that leave the families. -/
lemma Versioned.sameFamilies (h : Versioned opts items s) (hsame : SameFamilies s s') :
    Versioned opts items s' :=
  h.congr hsame.ids hsame.doNotOpen (by rw [hsame.own])

/-- Steps that leave the families. -/
lemma RunInv.sameFamilies (inv : RunInv opts items s) (hsame : SameFamilies s s') :
    RunInv opts items s' :=
  ⟨inv.families.congr hsame, hsame.own ▸ inv.outside, inv.versions.sameFamilies hsame⟩

/-- The versions after an edit, kind by kind. -/
lemma RunInv.versions_dispatch (inv : RunInv opts items s) {edit : ManifestEdit K}
    {files : VersionEdit K}
    (h : s.dispatch opts.pointInTime (virtuals opts.pointInTime) edit files = (.ok, s')) :
    Versioned opts (items ++ [.single edit]) s' ∧ s'.own.inAtomicGroup = false := by
  have hother : ∀ {s₁ : EditHandler K (PointInTime K)}, Versioned opts items s₁ →
      (single edit).event = .other → Versioned opts (items ++ [.single edit]) s₁ :=
    fun hversions hitem => hversions.other hitem
  rw [dispatch] at h
  cases hkind : edit.kind with
  | columnFamilyAdd name =>
    rw [hkind] at h
    have hadded := onColumnFamilyAdd_ok h
    refine ⟨inv.versions.added (by rw [event, hkind]) hadded, ?_⟩
    rcases hadded.families with ⟨-, -, hown⟩ | ⟨-, -, hown⟩ <;> exact hown ▸ inv.outside
  | columnFamilyDrop =>
    rw [hkind] at h
    have hitem : (single edit).event = .drop edit.columnFamily := by
      rw [event, hkind]
    rcases onColumnFamilyDrop_ok h with rfl | ⟨hnone, hfamilies, hopen, hown⟩
    · exact ⟨inv.versions.dropped hitem rfl rfl rfl, inv.outside⟩
    · refine ⟨inv.versions.closed hitem (fun hlive => ?_) hfamilies hopen hown, hown ▸ inv.outside⟩
      obtain ⟨family, hmem, hid⟩ := List.mem_map.1 hlive
      exact hnone family hmem hid
  | walAddition wals | walDeletion logNumber =>
    rw [hkind] at h
    obtain ⟨-, rfl⟩ := Prod.mk.inj h
    exact ⟨hother (inv.versions.sameFamilies (.of_eq rfl rfl rfl))
      (by rw [event, hkind]), inv.outside⟩
  | change =>
    rw [hkind] at h
    have hitem : (single edit).event = .other := by rw [event, hkind]
    rcases onNonCfOperation_ok h with ⟨-, hsame⟩ | ⟨-, s₁, hcreate, hsame⟩
    · exact ⟨hother (inv.versions.sameFamilies hsame) hitem, hsame.own ▸ inv.outside⟩
    · have inv₁ : RunInv opts items { s with cfd := none } := inv.sameFamilies (.of_eq rfl rfl rfl)
      obtain ⟨hversions, houtside⟩ := inv₁.versions_create hcreate
      exact ⟨hother (hversions.sameFamilies hsame) hitem, hsame.own ▸ houtside⟩

/-- An edit outside of groups. -/
lemma RunInv.single (inv : RunInv opts items s) {edit : ManifestEdit K}
    (h : applyVersionEdit opts.pointInTime (virtuals opts.pointInTime) ⟨edit, none⟩ s =
      (.ok, s')) : RunInv opts (items ++ [.single edit]) s' := by
  have hfamilies := inv.families.applyVersionEdit (tracksEdits_start opts) follows_virtuals h
  obtain ⟨s₁, s₂, hsame, hdispatch, hextract⟩ := applyVersionEdit_ok h
  obtain ⟨hversions, houtside⟩ := (inv.sameFamilies hsame).versions_dispatch hdispatch
  have hsame' := extractInfo_sameFamilies hextract
  refine ⟨?_, hsame'.own ▸ houtside, hversions.sameFamilies hsame'⟩
  rw [manifestOf_append]
  exact hfamilies

/-! ### Groups -/

/-- An edit in a group is of a column family that is known, and makes no version. -/
lemma applyVersionEdit_inGroup (hgroup : s.own.inAtomicGroup = true)
    {e : LogEdit (ManifestEdit K)} (hkeeps : KeepsFamilies e.body)
    (h : applyVersionEdit opts (virtuals opts) e s = (.ok, s')) :
    s'.families.map Family.id = s.families.map Family.id ∧
    s'.doNotOpenColumnFamilies = s.doNotOpenColumnFamilies ∧ s'.own = s.own ∧
    (e.body.kind = .change → Known s e.body.columnFamily) := by
  obtain ⟨s₁, s₂, hsame, hdispatch, hextract⟩ := applyVersionEdit_ok h
  have hsame' := extractInfo_sameFamilies hextract
  rw [hsame'.ids, hsame'.doNotOpen, hsame'.own, ← hsame.ids, ← hsame.doNotOpen, ← hsame.own]
  have hgroup₁ : s₁.own.inAtomicGroup = true := hsame.own ▸ hgroup
  have hknown : Known s e.body.columnFamily ↔ Known s₁ e.body.columnFamily := by
    rw [Known, Known, Live, Live, hsame.ids, hsame.doNotOpen]
  rw [hknown]
  rw [dispatch] at hdispatch
  cases hkind : e.body.kind with
  | columnFamilyAdd name => exact absurd hkind (hkeeps.1 name)
  | columnFamilyDrop => exact absurd hkind hkeeps.2
  | walAddition wals | walDeletion logNumber =>
    rw [hkind] at hdispatch
    obtain ⟨-, rfl⟩ := Prod.mk.inj hdispatch
    exact ⟨rfl, rfl, rfl, fun hchange => by cases hchange⟩
  | change =>
    rw [hkind] at hdispatch
    rcases onNonCfOperation_ok hdispatch with ⟨⟨x, hx, hid⟩, hsame⟩ |
      ⟨⟨family, hmem, hid⟩, s₃, hcreate, hsame⟩
    · exact ⟨hsame.ids, hsame.doNotOpen, hsame.own, fun _ =>
        .inr (hid ▸ mem_map_of_mem hx)⟩
    · rw [hsame.ids, hsame.doNotOpen, hsame.own]
      have hlive : Live s₁ e.body.columnFamily := hid ▸ mem_map_of_mem hmem
      rcases maybeCreate_ok hcreate with ⟨-, rfl⟩ | ⟨family', b, -, hcreated⟩
      · exact ⟨rfl, rfl, rfl, fun _ => .inl hlive⟩
      · refine ⟨?_, hcreated.doNotOpen, ?_, fun _ => .inl hlive⟩
        · rw [hcreated.families]
          exact modifyFamily_ids fun _ => rfl
        · rcases hcreated.own with hown | ⟨houtside, -⟩
          · exact hown
          · exact absurd (hgroup₁.symm.trans houtside) (by decide)

/-- What the beginning of a group does when it succeeds. -/
lemma onAtomicGroupReplayBegin_ok {order : MapOrder}
    (h : onAtomicGroupReplayBegin opts order s = (.ok, s')) :
    ∃ s₀, Rep.forEach (fun id => maybeCreateVersionBeforeApplyEdit opts {} id true)
        (order.order (s.families.map Family.id)) s = (.ok, s₀) ∧ s' = { s₀ with own :=
          { updates := s₀.own.updates.beginGroup (s₀.families.map Family.id)
            inAtomicGroup := true } } := by
  rw [onAtomicGroupReplayBegin] at h
  split_ifs at h
  · cases (Prod.mk.inj h).1
  · split at h
    · next s₀ hforce => exact ⟨s₀, hforce, (Prod.mk.inj h).2.symm⟩
    · next hfailed => exact absurd h (hfailed _)

omit [LinearOrder K] in
/-- What its end does. -/
lemma onAtomicGroupReplayEnd_ok (h : onAtomicGroupReplayEnd s = (.ok, s')) :
    s' = { s with own := { s.own with inAtomicGroup := false } } := by
  rw [onAtomicGroupReplayEnd] at h
  simp only at h
  split_ifs at h
  · cases (Prod.mk.inj h).1
  · cases (Prod.mk.inj h).1
  · cases (Prod.mk.inj h).1
  · cases (Prod.mk.inj h).1
  · exact (Prod.mk.inj h).2.symm

/-- Versions of all families are made before a group. -/
lemma RunInv.forceAll (inv : RunInv opts items s) {ids : List ℕ}
    (h : Rep.forEach (fun id => maybeCreateVersionBeforeApplyEdit opts.pointInTime {} id true) ids
      s = (.ok, s')) : RunInv opts items s' :=
  forEach_keeps (RunInv opts items) h (fun _ _ _ _ inv hforce => inv.force hforce) inv

/-- What holds in a group that began in the state `s₀`: the versions and the column families stay as
they are, and the edits are of column families that are known. -/
structure InGroup (opts : HandlerOptions K) (items : List (ManifestItem K))
    (s₀ : EditHandler K (PointInTime K)) (done : List (LogEdit (ManifestEdit K)))
    (s : EditHandler K (PointInTime K)) : Prop where
  families : FamilyInv (TracksEdits opts) done s
  ids : s.families.map Family.id = s₀.families.map Family.id
  doNotOpen : s.doNotOpenColumnFamilies = s₀.doNotOpenColumnFamilies
  own : s.own =
    { updates := s₀.own.updates.beginGroup (s₀.families.map Family.id), inAtomicGroup := true }
  replayed : ∃ replayed, done = manifestOf items ++ replayed ∧
    ∀ e ∈ replayed, e.body.kind = .change → Known s₀ e.body.columnFamily

/-- An edit within a group. -/
lemma InGroup.step {s₀ : EditHandler K (PointInTime K)} {done : List (LogEdit (ManifestEdit K))}
    (inv : InGroup opts items s₀ done s) {e : LogEdit (ManifestEdit K)}
    (hkeeps : KeepsFamilies e.body)
    (h : applyVersionEdit opts.pointInTime (virtuals opts.pointInTime) e s =
      (.ok, s')) : InGroup opts items s₀ (done ++ [e]) s' := by
  obtain ⟨hids, hopen, hown, hknown⟩ := applyVersionEdit_inGroup (by rw [inv.own]) hkeeps h
  obtain ⟨replayed, rfl, hparts⟩ := inv.replayed
  refine ⟨inv.families.applyVersionEdit (tracksEdits_start opts) follows_virtuals h,
    hids.trans inv.ids, hopen.trans inv.doNotOpen, hown.trans inv.own, replayed ++ [e],
    append_assoc _ _ _, fun e' he' => ?_⟩
  rcases mem_append.1 he' with he' | he'
  · exact hparts e' he'
  · rw [mem_singleton.1 he']
    rwa [Known, Live, inv.ids, inv.doNotOpen] at hknown

/-- A whole group. -/
lemma RunInv.group (inv : RunInv opts items s) {order : MapOrder}
    {edits : List (LogEdit (ManifestEdit K))} (complete : IsGroup edits)
    (keeps : ∀ e ∈ edits, KeepsFamilies e.body)
    (h : (handler opts.pointInTime order).replayGroup edits s = (.ok, s')) :
    RunInv opts (items ++ [.group edits complete keeps]) s' := by
  obtain ⟨s₁, s₂, hbegin, hreplay, hend⟩ := replayGroup_ok h
  obtain ⟨s₀, hforce, rfl⟩ := onAtomicGroupReplayBegin_ok hbegin
  obtain rfl := onAtomicGroupReplayEnd_ok hend
  have inv' : RunInv opts items { s with cfd := none } := inv.sameFamilies (.of_eq rfl rfl rfl)
  have inv₀ : RunInv opts items s₀ := inv'.forceAll hforce
  have hstart : InGroup opts items s₀ (manifestOf items)
      { s₀ with
        own :=
          { updates := s₀.own.updates.beginGroup (s₀.families.map Family.id)
            inAtomicGroup := true } } :=
    ⟨⟨inv₀.families.nodup, inv₀.families.apart, inv₀.families.log⟩, rfl, rfl, rfl, [], by simp,
      by simp⟩
  have hgroup := replay_keeps (InGroup opts items s₀)
    (fun he hinv happly => hinv.step (keeps _ he) happly) hreplay hstart
  obtain ⟨replayed, hreplayed, hparts⟩ := hgroup.replayed
  obtain rfl := append_cancel_left hreplayed
  have hfamilies := hgroup.families
  refine ⟨?_, rfl, ?_⟩
  · rw [manifestOf_append]
    exact ⟨hfamilies.nodup, hfamilies.apart, hfamilies.log⟩
  · obtain ⟨ranked, hmap, hprotocol, hstate⟩ := inv₀.versions
    refine Versioned.congr (s := { s₀ with own := s₂.own })
      ⟨ranked.beginGroup (s₀.families.map Family.id), ?_, ?_, ?_⟩ hgroup.ids hgroup.doNotOpen rfl
    · rw [← map_beginGroup, hmap, hgroup.own]
    · rw [map_append, map_singleton]
      refine hprotocol.beginGroup inv₀.families.nodup (fun hlive => hlive) fun id hid => ?_
      obtain ⟨e, he, rfl⟩ := mem_map.1 hid
      obtain ⟨he, hkind⟩ := mem_filter.1 he
      exact hparts e he (by simpa using hkind)
    · refine (hstate.beginGroup _).imp fun id version hversion => ?_
      exact hversion.append (fun heq => by cases heq) fun heq => by cases heq

/-! ### The run -/

/-- The whole manifest, item by item. -/
lemma RunInv.iterate {order : MapOrder} {b' : AtomicGroupReadBuffer (ManifestEdit K)}
    (inv : RunInv opts items s) {more : List (ManifestItem K)}
    (h : (handler opts.pointInTime order).iterate (manifestOf more) {} s = (.ok, b', s')) :
    RunInv opts (items ++ more) s' := by
  induction more generalizing items s with
  | nil =>
    cases h
    rwa [append_nil]
  | cons item more ih =>
    rw [← singleton_append, ← append_assoc]
    cases item with
    | single edit =>
      obtain ⟨s₁, happly, hrest⟩ := iterate_single_ok rfl h
      exact ih (inv.single happly) hrest
    | group edits complete keeps =>
      obtain ⟨s₁, hreplay, hrest⟩ := iterate_group_ok complete h
      exact ih (inv.group complete keeps hreplay) hrest

/-- At the beginning of a manifest. -/
lemma runInv_init (h : initializeHandler opts.pointInTime { own := {} } = (.ok, s)) :
    RunInv opts [] s := by
  obtain ⟨hfamilies, hown⟩ := initializeHandler_ok (tracksEdits_start opts) h
  exact ⟨hfamilies, by rw [hown], {}, by rw [hown]; rfl, protocol_empty fun {id} => .inl,
    all_empty⟩

/-- What recovery installs are the versions of a handler that has gone through the manifest. -/
lemma recover_versions (opts : HandlerOptions K) (order : MapOrder)
    (items : List (ManifestItem K)) (readStatus : Status) :
    (recover opts order (manifestOf items) readStatus).2 = [] ∨ ∃ s, RunInv opts items s ∧
      ∀ installed ∈ (recover opts order (manifestOf items) readStatus).2,
        s.own.updates.versions installed.1 = some installed.2 := by
  have hcheck : ∀ {status : Status} {s₁ : EditHandler K (PointInTime K)},
      (status = .ok → RunInv opts items s₁) →
      (checkIterationResult opts.pointInTime status s₁).2 = [] ∨ ∃ s, RunInv opts items s ∧
        ∀ installed ∈ (checkIterationResult opts.pointInTime status s₁).2,
          s.own.updates.versions installed.1 = some installed.2 := by
    intro status s₁ inv
    rw [checkIterationResult]
    split
    · next s₂ hresult =>
      obtain ⟨hstatus, -, hforce⟩ := checkIterationResult_ok hresult
      refine .inr ⟨s₂, (inv hstatus).forceAll hforce, fun installed hmem => ?_⟩
      obtain ⟨family, -, hfound⟩ := mem_filterMap.1 hmem
      obtain ⟨version, hversion, rfl⟩ := Option.map_eq_some_iff.1 hfound
      exact hversion
    · exact .inl rfl
  simp only [recover]
  split
  · next s₀ hinit =>
    have inv₀ := runInv_init hinit
    split
    · next b s₁ hiterate =>
      have inv₁ := inv₀.iterate hiterate
      rw [nil_append] at inv₁
      exact hcheck fun _ => inv₁
    · next hfailed _ => exact hcheck fun hok => (hfailed hok).elim
  · next hfailed _ => exact hcheck fun hok => (hfailed hok).elim

/-- **Best-efforts recovery respects atomic groups.** Every version that is installed is the state
of its column family after some items of the manifest, with all files present. For every group,
all installed column families that took part in it and were not dropped since reflect it, or none
does. -/
theorem installed_reflect_groups (opts : HandlerOptions K) (order : MapOrder)
    (items : List (ManifestItem K)) (readStatus : Status) : ∃ position : ℕ → ℕ,
      (∀ installed ∈ (recover opts order (manifestOf items) readStatus).2,
        StateAfter opts items installed.1 (position installed.1) installed.2) ∧
      ∀ i, (∀ installed ∈ (recover opts order (manifestOf items) readStatus).2,
          Bound (items.map ManifestItem.event) i installed.1 → i < position installed.1) ∨
        ∀ installed ∈ (recover opts order (manifestOf items) readStatus).2,
          Bound (items.map ManifestItem.event) i installed.1 → position installed.1 ≤ i := by
  rcases recover_versions opts order items readStatus with hnone | ⟨s, inv, hversions⟩
  · rw [hnone]
    exact ⟨fun _ => 0, by simp, by simp⟩
  obtain ⟨ranked, hmap, hprotocol, hstate⟩ := inv.versions
  have hranked : ∀ installed ∈ (recover opts order (manifestOf items) readStatus).2,
      ∃ n, ranked.versions installed.1 = some (installed.2, n) := by
    intro installed hmem
    have hversion := hversions installed hmem
    rw [← hmap] at hversion
    obtain ⟨version, hversion, hfst⟩ := Option.map_eq_some_iff.1 hversion
    exact ⟨version.2, by rw [hversion, ← hfst]⟩
  obtain ⟨position, hposition⟩ : ∃ position : ℕ → ℕ, ∀ {id version},
      ranked.versions id = some version → position id = version.2 :=
    ⟨fun id => (ranked.versions id).elim 0 Prod.snd, fun hversion => by simp [hversion]⟩
  refine ⟨position, fun installed hmem => ?_, fun i => ?_⟩
  · obtain ⟨n, hn⟩ := hranked installed hmem
    rw [hposition hn]
    exact hstate.versions hn
  · refine (hprotocol.allOrNone i).imp (fun hall installed hmem hbound => ?_)
      fun hnone installed hmem hbound => ?_
    · obtain ⟨n, hn⟩ := hranked installed hmem
      rw [hposition hn]
      exact hall _ _ hbound hn
    · obtain ⟨n, hn⟩ := hranked installed hmem
      rw [hposition hn]
      exact hnone _ _ hbound hn

end PointInTime

end BucketLSM.Manifest
