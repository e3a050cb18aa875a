import BucketLSM.Manifest.EditHandler

/-!
# Recovery from a manifest

While a manifest is replayed, the builder of every column family has the changes of the edits since
the family was added. This is so for every subclass of the handler that hands the edits to the
builders.
-/

namespace BucketLSM.Manifest

open List HandlerOptions Manifest.Rep

variable {K X : Type}

/-! ## What a manifest says about a column family -/

/-- The name of a column family, and the changes of its files since it was added. -/
structure FamilyLog (K : Type) where
  name : String := defaultColumnFamilyName
  edits : List (VersionEdit K) := []

/-- The column family with an id after one more edit. -/
def FamilyLog.step (id : ℕ) (log : FamilyLog K) (e : LogEdit (ManifestEdit K)) : FamilyLog K :=
  if e.body.columnFamily = id then
    match e.body.kind with
    | .columnFamilyAdd name => { name }
    | .columnFamilyDrop => { name := log.name }
    | .change => { log with edits := log.edits ++ [EditHandler.filesOf e] }
    | .walAddition _ => log
    | .walDeletion _ => log
  else log

/-- The column family with an id after some edits; the default one is there from the beginning. -/
def familyLog (id : ℕ) (edits : List (LogEdit (ManifestEdit K))) : FamilyLog K :=
  edits.foldl (FamilyLog.step id) {}

/-- One more edit is one more step. -/
lemma familyLog_append (id : ℕ) (edits : List (LogEdit (ManifestEdit K)))
    (e : LogEdit (ManifestEdit K)) : familyLog id (edits ++ [e]) = (familyLog id edits).step id e :=
  foldl_append

/-- Edits of other column families do not count. -/
lemma FamilyLog.step_of_ne {id : ℕ} {log : FamilyLog K} {e : LogEdit (ManifestEdit K)}
    (h : e.body.columnFamily ≠ id) : log.step id e = log :=
  if_neg h

/-- The options of a column family with a name. -/
def HandlerOptions.familyOptions (opts : HandlerOptions K) (name : String) : FamilyOptions :=
  if name = persistentStatsColumnFamilyName then {} else (opts.columnFamilies.lookup name).getD {}

/-- The version that a column family begins with. -/
def HandlerOptions.startVersion (opts : HandlerOptions K) (name : String) : VersionStorageInfo K :=
  .fresh (opts.familyOptions name).numLevels .mustPresent
    (opts.familyOptions name).forceConsistencyChecks

/-- The builder that a column family begins with. -/
def HandlerOptions.startBuilder (opts : HandlerOptions K) (id : ℕ) (name : String) : Rep K :=
  Rep.init (opts.verifier id) opts.trackFoundAndMissingFiles opts.allowIncompleteValidVersion
    (opts.startVersion name)

/-! ## Builders follow the manifest -/

/-- What holds of the builders along a manifest. -/
structure FamilyInv (P : ℕ → FamilyLog K → Rep K → Prop) (done : List (LogEdit (ManifestEdit K)))
    (s : EditHandler K X) : Prop where
  nodup : (s.families.map Family.id).Nodup
  apart : ∀ x ∈ s.doNotOpenColumnFamilies, ∀ family ∈ s.families, family.id ≠ x.1
  log : ∀ family ∈ s.families, P family.id (familyLog family.id done) family.builder

/-- The changes of an edit are handed to the builder of a column family. -/
structure Edited (P : ℕ → FamilyLog K → Rep K → Prop) (edit : VersionEdit K) (id : ℕ)
    (s s' : EditHandler K X) : Prop where
  ids : s'.families.map Family.id = s.families.map Family.id
  doNotOpen : s'.doNotOpenColumnFamilies = s.doNotOpenColumnFamilies
  families : ∀ family' ∈ s'.families, ∃ family ∈ s.families, family'.id = family.id ∧
    (family.id ≠ id → family'.builder = family.builder) ∧
    (family.id = id → ∀ log, P id log family.builder →
      P id { log with edits := log.edits ++ [edit] } family'.builder)

/-- A subclass hands edits to builders, and drops column families that are to be dropped. -/
structure Virtuals.Follows (V : Virtuals K X) (P : ℕ → FamilyLog K → Rep K → Prop) : Prop where
  create : ∀ {edit id s s'}, (s.families.map Family.id).Nodup →
    V.maybeCreateVersionBeforeApplyEdit edit id false s = (.ok, s') → Edited P edit id s s'
  destroy : ∀ id s, (V.destroyCfAndCleanup id s).families =
      s.families.filter (fun family => family.id ≠ id) ∧
    (V.destroyCfAndCleanup id s).doNotOpenColumnFamilies = s.doNotOpenColumnFamilies

/-- The column families are the same but for their log numbers. -/
structure SameFamilies (s s' : EditHandler K X) : Prop where
  ids : s'.families.map Family.id = s.families.map Family.id
  doNotOpen : s'.doNotOpenColumnFamilies = s.doNotOpenColumnFamilies
  families : ∀ family' ∈ s'.families, ∃ family ∈ s.families, family'.id = family.id ∧
    family'.builder = family.builder ∧ family'.current = family.current
  own : s'.own = s.own

/-- Nothing that counts has changed. -/
lemma SameFamilies.of_eq {s s' : EditHandler K X} (families : s'.families = s.families)
    (doNotOpen : s'.doNotOpenColumnFamilies = s.doNotOpenColumnFamilies) (own : s'.own = s.own) :
    SameFamilies s s' :=
  ⟨by rw [families], doNotOpen, fun family h => ⟨family, families ▸ h, rfl, rfl, rfl⟩, own⟩

/-- No step at all. -/
lemma SameFamilies.refl (s : EditHandler K X) : SameFamilies s s := .of_eq rfl rfl rfl

/-- Two steps. -/
lemma SameFamilies.trans {s s' s'' : EditHandler K X} (h : SameFamilies s s')
    (h' : SameFamilies s' s'') : SameFamilies s s'' := by
  refine ⟨h'.ids.trans h.ids, h'.doNotOpen.trans h.doNotOpen, fun family'' hmem => ?_,
    h'.own.trans h.own⟩
  obtain ⟨family', hmem', hid', hbuilder', hcurrent'⟩ := h'.families family'' hmem
  obtain ⟨family, hmem, hid, hbuilder, hcurrent⟩ := h.families family' hmem'
  exact ⟨family, hmem, hid'.trans hid, hbuilder'.trans hbuilder, hcurrent'.trans hcurrent⟩

namespace EditHandler

variable {opts : HandlerOptions K} {V : Virtuals K X} {P : ℕ → FamilyLog K → Rep K → Prop}
  {done : List (LogEdit (ManifestEdit K))} {s s' : EditHandler K X}

variable {id : ℕ} {f : Family K → Family K} {edit : ManifestEdit K}

/-- A column family is not found if none has its id. -/
lemma findFamily_eq_none : s.findFamily id = none ↔ ∀ family ∈ s.families, family.id ≠ id := by
  simp [findFamily]

/-- No builder is there for it. -/
lemma inBuilders_eq_false : s.inBuilders id = false ↔ ∀ family ∈ s.families, family.id ≠ id := by
  rw [inBuilders, Option.isSome_eq_false_iff, Option.isNone_iff_eq_none, findFamily_eq_none]

/-- It is not among those that are not opened. -/
lemma doNotOpen_eq_false : s.doNotOpen id = false ↔ ∀ x ∈ s.doNotOpenColumnFamilies, x.1 ≠ id := by
  simp [doNotOpen]

/-- A column family is found by its id. -/
lemma findFamily_eq_some (h : (s.families.map Family.id).Nodup) {family : Family K} :
    s.findFamily id = some family ↔ family ∈ s.families ∧ family.id = id :=
  Keyed.find?_eq_some h

/-- Changing a column family keeps the ids. -/
lemma modifyFamily_ids (hf : ∀ family, (f family).id = family.id) :
    (s.modifyFamily id f).families.map Family.id = s.families.map Family.id :=
  Keyed.map_key_modify fun family _ => hf family

/-- Taking over log numbers leaves the families. -/
lemma extractLogNumber_sameFamilies (edit : ManifestEdit K) (s : EditHandler K X) :
    SameFamilies s (s.extractLogNumber edit) := by
  unfold extractLogNumber
  split
  · split_ifs
    · exact SameFamilies.refl s
    · refine ⟨modifyFamily_ids fun _ => rfl, rfl, ?_, rfl⟩
      · intro family' hmem
        obtain ⟨family, hfamily, rfl⟩ := mem_map.1 hmem
        refine ⟨family, hfamily, ?_⟩
        split_ifs <;> exact ⟨rfl, rfl, rfl⟩
  · exact SameFamilies.refl s

/-- So does taking over the rest of an edit. -/
lemma extractInfo_sameFamilies (h : s.extractInfoFromVersionEdit opts edit = (.ok, s')) :
    SameFamilies s s' := by
  simp only [extractInfoFromVersionEdit] at h
  split at h
  · obtain ⟨-, rfl⟩ := Prod.mk.inj h
    exact (extractLogNumber_sameFamilies edit s).trans (.of_eq rfl rfl rfl)
  · next hfailed => exact absurd (Prod.mk.inj h).1 (hfailed ·)

/-- A change of one family by the edit of that family. -/
lemma edited_of_modifyFamily (nodup : (s.families.map Family.id).Nodup) {family : Family K}
    (hfind : s.findFamily id = some family)
    (hfamilies : s'.families = (s.modifyFamily id f).families)
    (hf : ∀ family, (f family).id = family.id)
    (hopen : s'.doNotOpenColumnFamilies = s.doNotOpenColumnFamilies) {edit : VersionEdit K}
    (hP : ∀ log, P id log family.builder →
      P id { log with edits := log.edits ++ [edit] } (f family).builder) :
    Edited P edit id s s' := by
  obtain ⟨hfamily, hid⟩ := (findFamily_eq_some nodup).1 hfind
  refine ⟨hfamilies ▸ modifyFamily_ids hf, hopen, fun family' hmem => ?_⟩
  rw [hfamilies] at hmem
  obtain ⟨g, hg, rfl⟩ := mem_map.1 hmem
  refine ⟨g, hg, ?_, fun hne => ?_, fun heq log hlog => ?_⟩
  · split_ifs
    · exact hf g
    · rfl
  · rw [if_neg hne]
  · have hsame : g = family := inj_on_of_nodup_map nodup hg hfamily (heq.trans hid.symm)
    rw [if_pos heq]
    subst hsame
    exact hP log hlog

/-! ### The steps -/

/-- A column family is added; without options for its name it is not opened. -/
structure FamilyAdded (opts : HandlerOptions K) (name : String) (edit : ManifestEdit K)
    (s s' : EditHandler K X) : Prop where
  new : ∀ family ∈ s.families, family.id ≠ edit.columnFamily
  closed : ∀ x ∈ s.doNotOpenColumnFamilies, x.1 ≠ edit.columnFamily
  families :
    s'.families = s.families ++ [⟨edit.columnFamily, opts.startBuilder edit.columnFamily name,
        edit.logNumber.getD 0, opts.startVersion name⟩] ∧
      s'.doNotOpenColumnFamilies = s.doNotOpenColumnFamilies ∧ s'.own = s.own ∨
    s'.families = s.families ∧
      s'.doNotOpenColumnFamilies = s.doNotOpenColumnFamilies ++ [(edit.columnFamily, name)] ∧
      s'.own = s.own

/-- What a column family addition does when it succeeds. -/
lemma onColumnFamilyAdd_ok {name : String} (h : s.onColumnFamilyAdd opts name edit = (.ok, s')) :
    FamilyAdded opts name edit s s' := by
  simp only [onColumnFamilyAdd] at h
  split_ifs at h with hknown hpersistent
  · cases (Prod.mk.inj h).1
  all_goals
    obtain ⟨hfamilies, hclosed⟩ := Bool.or_eq_false_iff.1 (Bool.eq_false_iff.2 hknown)
    refine ⟨inBuilders_eq_false.1 hfamilies, doNotOpen_eq_false.1 hclosed, ?_⟩
  · obtain ⟨-, rfl⟩ := Prod.mk.inj h
    refine .inl ⟨?_, rfl, rfl⟩
    rw [startBuilder, startVersion, familyOptions, if_pos hpersistent]
    rfl
  · split at h
    · next options hoptions =>
      obtain ⟨-, rfl⟩ := Prod.mk.inj h
      refine .inl ⟨?_, rfl, rfl⟩
      rw [startBuilder, startVersion, familyOptions, if_neg hpersistent, hoptions]
      rfl
    · obtain ⟨-, rfl⟩ := Prod.mk.inj h
      exact .inr ⟨rfl, rfl, rfl⟩

/-- A column family is dropped by the subclass, or it was not opened. -/
lemma onColumnFamilyDrop_ok (h : s.onColumnFamilyDrop V edit = (.ok, s')) :
    s' = V.destroyCfAndCleanup edit.columnFamily { s with cfd := none } ∨
    (∀ family ∈ s.families, family.id ≠ edit.columnFamily) ∧ s'.families = s.families ∧
      s'.doNotOpenColumnFamilies =
        s.doNotOpenColumnFamilies.filter (fun x => x.1 ≠ edit.columnFamily) ∧ s'.own = s.own := by
  simp only [onColumnFamilyDrop] at h
  split_ifs at h with hbuilders hclosed
  · exact .inl (Prod.mk.inj h).2.symm
  · obtain ⟨-, rfl⟩ := Prod.mk.inj h
    exact .inr ⟨inBuilders_eq_false.1 (Bool.eq_false_iff.2 hbuilders), rfl, rfl, rfl⟩
  · cases (Prod.mk.inj h).1

/-- The edit is of a family that is not opened, or it goes to the subclass. -/
lemma onNonCfOperation_ok {files : VersionEdit K}
    (h : s.onNonCfOperation V edit files = (.ok, s')) :
    (∃ x ∈ s.doNotOpenColumnFamilies, x.1 = edit.columnFamily) ∧ SameFamilies s s' ∨
    (∃ family ∈ s.families, family.id = edit.columnFamily) ∧
    ∃ s₁, V.maybeCreateVersionBeforeApplyEdit files edit.columnFamily false { s with cfd := none } =
      (.ok, s₁) ∧ SameFamilies s₁ s' := by
  simp only [onNonCfOperation] at h
  split_ifs at h with hclosed hbuilders hboundaries
  · obtain ⟨-, rfl⟩ := Prod.mk.inj h
    have hmem : ∃ x ∈ s.doNotOpenColumnFamilies, x.1 = edit.columnFamily := by
      simpa [doNotOpen] using hclosed
    exact .inl ⟨hmem, .of_eq rfl rfl rfl⟩
  · cases (Prod.mk.inj h).1
  · exact absurd (Prod.mk.inj h).1 hboundaries
  · obtain ⟨hok, rfl⟩ := Prod.mk.inj h
    have hmem : ∃ family ∈ s.families, family.id = edit.columnFamily := by
      simpa [inBuilders, findFamily] using hbuilders
    exact .inr ⟨hmem, _, Prod.ext hok rfl, .of_eq rfl rfl rfl⟩

/-- An edit is dispatched by its kind, between steps that leave the families. -/
lemma applyVersionEdit_ok {e : LogEdit (ManifestEdit K)}
    (h : applyVersionEdit opts V e s = (.ok, s')) :
    ∃ s₁ s₂, SameFamilies s s₁ ∧ s₁.dispatch opts V e.body (filesOf e) = (.ok, s₂) ∧
      s₂.extractInfoFromVersionEdit opts e.body = (.ok, s') := by
  simp only [applyVersionEdit] at h
  split at h
  · next s₂ hdispatch =>
    refine ⟨_, s₂, ?_, hdispatch, h⟩
    split_ifs
    · exact SameFamilies.refl s
    · exact .of_eq rfl rfl rfl
  · next hfailed => exact absurd h (hfailed _)

end EditHandler

namespace FamilyInv

variable {opts : HandlerOptions K} {V : Virtuals K X} {P : ℕ → FamilyLog K → Rep K → Prop}
  {done : List (LogEdit (ManifestEdit K))} {s s' : EditHandler K X}

open EditHandler

/-- The invariant reads nothing but the families. -/
lemma congr (inv : FamilyInv P done s) (h : SameFamilies s s') : FamilyInv P done s' := by
  refine ⟨h.ids ▸ inv.nodup, fun x hx family' hmem => ?_, fun family' hmem => ?_⟩
  · obtain ⟨family, hfamily, hid, -⟩ := h.families family' hmem
    rw [hid]
    exact inv.apart x (h.doNotOpen ▸ hx) family hfamily
  · obtain ⟨family, hfamily, hid, hbuilder, -⟩ := h.families family' hmem
    rw [hid, hbuilder]
    exact inv.log family hfamily

variable {e : LogEdit (ManifestEdit K)}

section

variable (inv : FamilyInv P done s)

include inv

/-- An edit that concerns no builder. -/
lemma other (h : ∀ family ∈ s.families, (familyLog family.id done).step family.id e =
      familyLog family.id done) : FamilyInv P (done ++ [e]) s := by
  refine ⟨inv.nodup, inv.apart, fun family hmem => ?_⟩
  rw [familyLog_append, h family hmem]
  exact inv.log family hmem

open FamilyLog

/-- A column family is created. -/
lemma created (start : ∀ id name, P id { name } (opts.startBuilder id name)) {name : String}
    (hkind : e.body.kind = .columnFamilyAdd name) (hadded : FamilyAdded opts name e.body s s') :
    FamilyInv P (done ++ [e]) s' := by
  have hothers : FamilyInv P (done ++ [e]) s :=
    inv.other fun family hmem => step_of_ne (hadded.new family hmem).symm
  rcases hadded.families with ⟨hfamilies, hopen, -⟩ | ⟨hfamilies, hopen, -⟩
  · refine ⟨?_, fun x hx family hmem => ?_, fun family hmem => ?_⟩
    · rw [hfamilies, map_append, map_singleton]
      refine nodup_append.2 ⟨inv.nodup, nodup_singleton _, ?_⟩
      intro id hid id' hid'
      obtain ⟨family, hmem, rfl⟩ := mem_map.1 hid
      rw [mem_singleton.1 hid']
      exact hadded.new family hmem
    · rw [hopen] at hx
      rw [hfamilies] at hmem
      rcases mem_append.1 hmem with hmem | hmem
      · exact inv.apart x hx family hmem
      · rw [mem_singleton.1 hmem]
        exact (hadded.closed x hx).symm
    · rw [hfamilies] at hmem
      rcases mem_append.1 hmem with hmem | hmem
      · exact hothers.log family hmem
      · rw [mem_singleton.1 hmem, familyLog_append, step, if_pos rfl, hkind]
        exact start _ _
  · refine ⟨hfamilies ▸ hothers.nodup, fun x hx family hmem => ?_, hfamilies ▸ hothers.log⟩
    rw [hfamilies] at hmem
    rw [hopen] at hx
    rcases mem_append.1 hx with hx | hx
    · exact hothers.apart x hx family hmem
    · rw [mem_singleton.1 hx]
      exact hadded.new family hmem

/-- A column family is dropped. -/
lemma dropped
    (hfamilies : s'.families = s.families.filter fun family => family.id ≠ e.body.columnFamily)
    (hopen : ∀ x ∈ s'.doNotOpenColumnFamilies, x ∈ s.doNotOpenColumnFamilies) :
    FamilyInv P (done ++ [e]) s' := by
  have hmem : ∀ family ∈ s'.families, family ∈ s.families ∧ family.id ≠ e.body.columnFamily := by
    intro family hfamily
    rw [hfamilies] at hfamily
    simpa using hfamily
  refine ⟨?_, fun x hx family hfamily => inv.apart x (hopen x hx) family (hmem family hfamily).1,
    fun family hfamily => ?_⟩
  · rw [hfamilies]
    exact inv.nodup.sublist (filter_sublist.map _)
  · rw [familyLog_append, step_of_ne (hmem family hfamily).2.symm]
    exact inv.log family (hmem family hfamily).1

/-- A column family gets the changes of an edit. -/
lemma edited (hkind : e.body.kind = .change) (h : Edited P (filesOf e) e.body.columnFamily s s') :
    FamilyInv P (done ++ [e]) s' := by
  refine ⟨h.ids ▸ inv.nodup, fun x hx family' hmem => ?_, fun family' hmem => ?_⟩
  · obtain ⟨family, hfamily, hid, -⟩ := h.families family' hmem
    rw [hid]
    exact inv.apart x (h.doNotOpen ▸ hx) family hfamily
  · obtain ⟨family, hfamily, hid, hother, hself⟩ := h.families family' hmem
    have hlog := inv.log family hfamily
    rw [hid, familyLog_append]
    by_cases hsame : family.id = e.body.columnFamily
    · rw [step, if_pos hsame.symm, hkind]
      rw [hsame] at hlog ⊢
      exact hself hsame _ hlog
    · rw [step_of_ne (Ne.symm hsame), hother hsame]
      exact hlog

/-- **Builders follow the manifest.** Every edit that is applied keeps the invariant. -/
lemma applyVersionEdit
    (start : ∀ id name, P id { name } (opts.startBuilder id name)) (follows : V.Follows P)
    (h : EditHandler.applyVersionEdit opts V e s = (.ok, s')) : FamilyInv P (done ++ [e]) s' := by
  obtain ⟨s₁, s₂, hsame, hdispatch, hextract⟩ := applyVersionEdit_ok h
  have inv₁ := inv.congr hsame
  refine congr ?_ (extractInfo_sameFamilies hextract)
  rw [dispatch] at hdispatch
  split at hdispatch
  · next name hkind => exact inv₁.created start hkind (onColumnFamilyAdd_ok hdispatch)
  · next hkind =>
    rcases onColumnFamilyDrop_ok hdispatch with rfl | ⟨hnone, hfamilies, hopen, -⟩
    · obtain ⟨hfamilies, hopen⟩ := follows.destroy e.body.columnFamily { s₁ with cfd := none }
      exact inv₁.dropped hfamilies fun x hx => by rwa [hopen] at hx
    · refine inv₁.dropped ?_ fun x hx => mem_of_mem_filter (hopen ▸ hx)
      rw [hfamilies]
      exact (filter_eq_self.2 fun family hmem => by simpa using hnone family hmem).symm
  · next wals hkind =>
    obtain ⟨-, rfl⟩ := Prod.mk.inj hdispatch
    refine congr (inv₁.other fun family _ => ?_) (.of_eq rfl rfl rfl)
    rw [step, hkind]
    split_ifs <;> rfl
  · next logNumber hkind =>
    obtain ⟨-, rfl⟩ := Prod.mk.inj hdispatch
    refine congr (inv₁.other fun family _ => ?_) (.of_eq rfl rfl rfl)
    rw [step, hkind]
    split_ifs <;> rfl
  · next hkind =>
    rcases onNonCfOperation_ok hdispatch with ⟨hclosed, hsame'⟩ | ⟨-, s₃, hcreate, hsame'⟩
    · refine congr (inv₁.other fun family hmem => step_of_ne ?_) hsame'
      obtain ⟨x, hx, hid⟩ := hclosed
      rw [← hid]
      exact (inv₁.apart x hx family hmem).symm
    · have inv₂ : FamilyInv P done { s₁ with cfd := none } := inv₁.congr (.of_eq rfl rfl rfl)
      exact (inv₂.edited hkind (follows.create inv₂.nodup hcreate)).congr hsame'

end

end FamilyInv

/-! ## The ends of a manifest -/

section Base

variable [LinearOrder K] {opts : HandlerOptions K}

/-- The builder has applied the edits of its column family, and no others. -/
def HoldsEdits (opts : HandlerOptions K) (id : ℕ) (log : FamilyLog K) (b : Rep K) : Prop :=
  Rep.forEach Rep.apply log.edits (opts.startBuilder id log.name) = (.ok, b)

variable {b : Rep K}

/-- The invariants of the builder along the edits. -/
lemma HoldsEdits.setup {id : ℕ} {log : FamilyLog K} (h : HoldsEdits opts id log b) :
    b.FilesInv ∧ Rep.SameSetup (opts.startBuilder id log.name) b :=
  forEach_apply_setup (isVersion_fresh _ _ _).distinct h

/-- The builder still has the version it began with as base. -/
lemma HoldsEdits.base_eq {id : ℕ} {log : FamilyLog K} (h : HoldsEdits opts id log b) :
    b.base = opts.startVersion log.name :=
  h.setup.2.base

/-- An empty edit changes nothing. -/
lemma Rep.apply_empty (h : checkConsistency b.base = .ok) : b.apply {} = (.ok, b) := by
  simp [apply, h, applyChanges, forEach, versionUpdated]

namespace EditHandler

variable {s s' : EditHandler K X}

omit [LinearOrder K] in
/-- An OK at the end means that the versions of all families have been made in turn. -/
lemma checkIterationResult_ok {V : Virtuals K X} {status : Status}
    (h : checkIterationResult opts V status s = (.ok, s')) : status = .ok ∧ s.missingInfo = false ∧
    Rep.forEach (fun id => V.maybeCreateVersionBeforeApplyEdit {} id true)
      (s.families.map Family.id) s = (.ok, s') := by
  simp only [checkIterationResult] at h
  split_ifs at h with hstatus hinfo hopen hlevels
  · exact absurd (Prod.mk.inj h).1 hstatus
  · cases (Prod.mk.inj h).1
  · cases (Prod.mk.inj h).1
  · cases (Prod.mk.inj h).1
  · split at h
    · exact ⟨not_not.1 hstatus, Bool.eq_false_iff.2 hinfo, h⟩
    · next hfailed => exact absurd (Prod.mk.inj h).1 (hfailed ·)

omit [LinearOrder K] in
/-- At the beginning there is the default column family. -/
lemma initializeHandler_ok {own : X} {P : ℕ → FamilyLog K → Rep K → Prop}
    (start : ∀ id name, P id { name } (opts.startBuilder id name))
    (h : initializeHandler opts { own } = (.ok, s)) : FamilyInv P [] s ∧ s.own = own := by
  rw [initializeHandler] at h
  split at h
  · cases (Prod.mk.inj h).1
  · next options hoptions =>
    obtain ⟨-, rfl⟩ := Prod.mk.inj h
    refine ⟨⟨nodup_singleton _, fun x hx => absurd hx (by simp [createCfAndInit]), ?_⟩, rfl⟩
    intro family hmem
    rw [mem_singleton.1 hmem]
    have hname : opts.familyOptions defaultColumnFamilyName = options := by
      rw [familyOptions, if_neg (by decide), hoptions]
      rfl
    have hstart := start 0 defaultColumnFamilyName
    rw [startBuilder, startVersion, hname] at hstart
    exact hstart

/-- `SaveTo` saves the version and then checks it. -/
lemma saveTo_eq (b : Rep K) : saveTo opts b =
    (checkConsistency (b.saveVersion opts.epochNumberRequirement),
      b.saveVersion opts.epochNumberRequirement) := by
  simp only [saveTo, Rep.saveVersion, Rep.saveTo, Rep.checkConsistency_fresh]

end EditHandler

end Base

end BucketLSM.Manifest
