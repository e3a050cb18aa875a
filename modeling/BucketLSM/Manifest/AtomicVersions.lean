import BucketLSM.Lib.Keyed
import Mathlib

/-!
# Versions that wait for an atomic group

`VersionEditHandlerPointInTime` (`db/version_edit_handler.cc`) keeps the versions it may install.
When an atomic group begins, all column families are taken to be in it. From then on a version of
one of them waits until there is one for each, and all of them are taken over at once.

The versions here are of any type. What is said of them is in terms of the events of a manifest:
a version has a rank, the number of events that it reflects.
-/

namespace BucketLSM.Manifest

open List Function Option

variable {V W : Type}

/-- `versions_`, `atomic_update_versions_` and `atomic_update_versions_missing_`. -/
structure AtomicVersions (V : Type) where
  versions : ℕ → Option V := fun _ => none
  atomicUpdateVersions : List (ℕ × Option V) := []
  atomicUpdateVersionsMissing : ℕ := 0

open AtomicVersions

namespace AtomicVersions

/-! ## The operations -/

/-- The entry of a column family in `atomic_update_versions_`. -/
def find (a : AtomicVersions V) (id : ℕ) : Option (ℕ × Option V) :=
  a.atomicUpdateVersions.find? fun entry => entry.1 = id

/-- `AtomicUpdateVersionsCompleted`. -/
def completed (a : AtomicVersions V) : Bool := a.atomicUpdateVersionsMissing = 0

/-- `AtomicUpdateVersionsContains`. -/
def contains (a : AtomicVersions V) (id : ℕ) : Bool := (a.find id).isSome

/-- One version less is missing if there was none for the column family. -/
def missingWithout (a : AtomicVersions V) (id : ℕ) : ℕ :=
  if (a.find id).any fun entry => entry.2.isNone then a.atomicUpdateVersionsMissing - 1
  else a.atomicUpdateVersionsMissing

/-- `AtomicUpdateVersionsDropCf`. -/
def dropCf (id : ℕ) (a : AtomicVersions V) : AtomicVersions V :=
  { a with
    atomicUpdateVersions := a.atomicUpdateVersions.filter fun entry => entry.1 ≠ id
    atomicUpdateVersionsMissing := a.missingWithout id }

/-- `AtomicUpdateVersionsPut`. -/
def put (id : ℕ) (version : V) (a : AtomicVersions V) : AtomicVersions V :=
  { a with
    atomicUpdateVersions := a.atomicUpdateVersions.map fun entry =>
      if entry.1 = id then (id, some version) else entry
    atomicUpdateVersionsMissing := a.missingWithout id }

/-- `AtomicUpdateVersionsApply`. -/
def apply (a : AtomicVersions V) : AtomicVersions V :=
  { a with
    versions := fun id => ((a.find id).bind Prod.snd).or (a.versions id)
    atomicUpdateVersions := [] }

/-- The versions are taken over if all of them are there. -/
def applyIfCompleted (a : AtomicVersions V) : AtomicVersions V := if a.completed then a.apply else a

/-- The entry of a column family in `versions_` is set or erased. -/
def setVersion (id : ℕ) (version : Option V) (a : AtomicVersions V) : AtomicVersions V :=
  { a with versions := update a.versions id version }

/-- A new version waits if its column family is in the group, and is taken over otherwise. -/
def add (id : ℕ) (version : V) (a : AtomicVersions V) : AtomicVersions V :=
  if a.contains id then (a.put id version).applyIfCompleted else a.setVersion id (some version)

/-- A column family is dropped. -/
def drop (id : ℕ) (a : AtomicVersions V) : AtomicVersions V :=
  (if a.contains id then (a.dropCf id).applyIfCompleted else a).setVersion id none

/-- A group begins; versions of the group before are thrown away. -/
def beginGroup (ids : List ℕ) (a : AtomicVersions V) : AtomicVersions V :=
  { a with
    atomicUpdateVersions := ids.map fun id => (id, none)
    atomicUpdateVersionsMissing := ids.length }

/-! ## Versions with more data

The operations do not look into the versions. -/

/-- A function is applied to all versions. -/
def map (f : V → W) (a : AtomicVersions V) : AtomicVersions W where
  versions id := (a.versions id).map f
  atomicUpdateVersions := a.atomicUpdateVersions.map fun entry => (entry.1, entry.2.map f)
  atomicUpdateVersionsMissing := a.atomicUpdateVersionsMissing

variable (f : V → W) (a : AtomicVersions V) (id : ℕ)

/-- A map over the versions is a simulation: the entry of a family. -/
lemma find_map : (a.map f).find id = (a.find id).map fun entry => (entry.1, entry.2.map f) := by
  simp only [find, map, find?_map]
  rfl

/-- Whether a family takes part. -/
lemma contains_map : (a.map f).contains id = a.contains id := by
  simp [contains, find_map]

/-- How many versions are missing. -/
lemma missingWithout_map : (a.map f).missingWithout id = a.missingWithout id := by
  simp only [missingWithout, find_map]
  cases a.find id with
  | none => rfl
  | some entry => cases entry.2 <;> simp [map, *]

/-- `map` and `apply` commute. -/
lemma map_apply : (a.map f).apply = a.apply.map f := by
  simp only [apply, map, mk.injEq, map_nil, and_true]
  funext id
  have hfind := find_map f a id
  rw [map] at hfind
  rw [hfind]
  cases a.find id with
  | none => rfl
  | some entry => cases hversion : entry.2 <;> simp [hversion]

/-- So do the further operations, one by one. -/
lemma map_applyIfCompleted : (a.map f).applyIfCompleted = a.applyIfCompleted.map f := by
  have hcompleted : (a.map f).completed = a.completed := rfl
  rw [applyIfCompleted, applyIfCompleted, hcompleted, map_apply]
  split_ifs <;> rfl

/-- Setting a version. -/
lemma map_setVersion (version : Option V) :
    (a.map f).setVersion id (version.map f) = (a.setVersion id version).map f := by
  simp only [setVersion, map, mk.injEq, and_true]
  funext id'
  by_cases h : id' = id
  · rw [h, update_self, update_self]
  · rw [update_of_ne h, update_of_ne h]

/-- Entering the version of a family of the group. -/
lemma map_put (version : V) : (a.map f).put id (f version) = (a.put id version).map f := by
  rw [put, missingWithout_map, put, map, map]
  simp only [List.map_map, mk.injEq, true_and, and_true]
  refine List.map_congr_left fun entry _ => ?_
  simp only [Function.comp_apply]
  split_ifs <;> rfl

/-- Dropping a family from the group. -/
lemma map_dropCf : (a.map f).dropCf id = (a.dropCf id).map f := by
  rw [dropCf, missingWithout_map, dropCf, map, map]
  simp only [List.filter_map, mk.injEq, true_and, and_true]
  rfl

/-- Adding a version, within a group or not. -/
lemma map_add (version : V) : (a.map f).add id (f version) = (a.add id version).map f := by
  rw [add, add, contains_map, map_put, map_applyIfCompleted]
  split_ifs
  · rfl
  · exact map_setVersion f a id (some version)

/-- Dropping a family. -/
lemma map_drop : (a.map f).drop id = (a.drop id).map f := by
  rw [drop, drop, contains_map, map_dropCf, map_applyIfCompleted]
  split_ifs
  · exact map_setVersion f _ id none
  · exact map_setVersion f a id none

/-- Beginning a group. -/
lemma map_beginGroup (ids : List ℕ) : (a.map f).beginGroup ids = (a.beginGroup ids).map f := by
  simp [beginGroup, map]

/-! ## What is stored -/

/-- A property of all versions, those that are taken over and those that wait. -/
structure All (P : ℕ → V → Prop) (a : AtomicVersions V) : Prop where
  versions : ∀ {id version}, a.versions id = some version → P id version
  waiting : ∀ {id version}, (id, some version) ∈ a.atomicUpdateVersions → P id version

variable {a : AtomicVersions V} {id : ℕ} {P Q : ℕ → V → Prop}

/-- At the beginning there are no versions. -/
lemma all_empty : ({} : AtomicVersions V).All P :=
  ⟨fun h => absurd h (by simp), fun h => absurd h (by simp)⟩

/-- A weaker property. -/
lemma All.imp (h : a.All P) (hPQ : ∀ id version, P id version → Q id version) : a.All Q :=
  ⟨fun hversion => hPQ _ _ (h.versions hversion), fun hversion => hPQ _ _ (h.waiting hversion)⟩

/-- Two properties. -/
lemma All.and (h : a.All P) (h' : a.All Q) : a.All fun id version => P id version ∧ Q id version :=
  ⟨fun hversion => ⟨h.versions hversion, h'.versions hversion⟩,
    fun hversion => ⟨h.waiting hversion, h'.waiting hversion⟩⟩

/-- A family that does not take part is not found. -/
lemma find_eq_none : a.find id = none ↔ id ∉ a.atomicUpdateVersions.map Prod.fst :=
  Keyed.find?_eq_none

/-- A family takes part if it has an entry. -/
lemma contains_iff : a.contains id ↔ id ∈ a.atomicUpdateVersions.map Prod.fst := by
  rw [contains, isSome_iff_ne_none, Ne, find_eq_none, not_not]

variable {entry : ℕ × Option V} {version : V}

/-- What is found is an entry of the family. -/
lemma mem_of_find (h : a.find id = some entry) : entry ∈ a.atomicUpdateVersions ∧ entry.1 = id :=
  ⟨mem_of_find?_eq_some h, by simpa using find?_some h⟩

/-- An entry is new or was there before. -/
lemma mem_put (h : entry ∈ (a.put id version).atomicUpdateVersions) :
    entry = (id, some version) ∨ entry ∈ a.atomicUpdateVersions := by
  obtain ⟨entry', hmem, rfl⟩ := mem_map.1 h
  split_ifs
  · exact .inl rfl
  · exact .inr hmem

/-- The families of the group stay the same. -/
lemma keys_put (a : AtomicVersions V) (id : ℕ) (version : V) :
    (a.put id version).atomicUpdateVersions.map Prod.fst = a.atomicUpdateVersions.map Prod.fst :=
  Keyed.map_key_modify fun _ hid => hid.symm

/-- A version after `apply` comes from the group, or was there and the group has none. -/
lemma versions_apply (h : a.apply.versions id = some version) :
    (id, some version) ∈ a.atomicUpdateVersions ∨
      a.versions id = some version ∧ ∀ version', a.find id ≠ some (id, some version') := by
  simp only [apply, or_eq_some_iff] at h
  rcases h with h | ⟨hnone, h⟩
  · obtain ⟨entry, hfind, hentry⟩ := bind_eq_some_iff.1 h
    obtain ⟨hmem, rfl⟩ := mem_of_find hfind
    refine .inl ?_
    rw [← hentry]
    exact hmem
  · refine .inr ⟨h, fun version' hfind => ?_⟩
    rw [hfind] at hnone
    cases hnone

/-- Only the version of one family is set. -/
lemma versions_setVersion {id' : ℕ} {version : Option V} {version' : V}
    (h : (a.setVersion id version).versions id' = some version') :
    id' = id ∧ version = some version' ∨ id' ≠ id ∧ a.versions id' = some version' := by
  have hupdate : update a.versions id version id' = some version' := h
  by_cases hid : id' = id
  · rw [hid, update_self] at hupdate
    exact .inl ⟨hid, hupdate⟩
  · rw [update_of_ne hid] at hupdate
    exact .inr ⟨hid, hupdate⟩

section

variable (h : a.All P)

include h

/-- `apply` installs versions that are there. -/
lemma All.apply : a.apply.All P := by
  refine ⟨fun hversion => ?_, fun hmem => absurd hmem (by simp [AtomicVersions.apply])⟩
  rcases versions_apply hversion with hmem | ⟨hversion, -⟩
  · exact h.waiting hmem
  · exact h.versions hversion

/-- The same where it depends on the group. -/
lemma All.applyIfCompleted : a.applyIfCompleted.All P := by
  rw [AtomicVersions.applyIfCompleted]
  split_ifs
  · exact h.apply
  · exact h

/-- A version with the property may be entered. -/
lemma All.put (hversion : P id version) : (a.put id version).All P := by
  refine ⟨fun h' => h.versions h', fun hmem => ?_⟩
  rcases mem_put hmem with heq | hmem
  · cases heq
    exact hversion
  · exact h.waiting hmem

/-- It may be set. -/
lemma All.setVersion (hversion : P id version) : (a.setVersion id (some version)).All P := by
  refine ⟨fun h' => ?_, h.waiting⟩
  rcases versions_setVersion h' with ⟨rfl, heq⟩ | ⟨-, hold⟩
  · cases heq
    exact hversion
  · exact h.versions hold

/-- It may be added. -/
lemma All.add (hversion : P id version) : (a.add id version).All P := by
  rw [AtomicVersions.add]
  split_ifs
  · exact (h.put hversion).applyIfCompleted
  · exact h.setVersion hversion

/-- A group begins without versions. -/
lemma All.beginGroup (ids : List ℕ) : (a.beginGroup ids).All P := by
  refine ⟨h.versions, fun hmem => ?_⟩
  obtain ⟨id, -, heq⟩ := mem_map.1 hmem
  cases heq

/-- Dropping a column family throws away its versions, and nothing else. -/
lemma All.erase (hPQ : ∀ id' version, id' ≠ id → P id' version → Q id' version) :
    ((a.setVersion id none).dropCf id).All Q := by
  refine ⟨fun {id' version} hversion => ?_, fun {id' version} hmem => ?_⟩
  · rcases versions_setVersion hversion with ⟨-, heq⟩ | ⟨hid, hold⟩
    · cases heq
    · exact hPQ id' version hid (h.versions hold)
  · obtain ⟨hmem, hid⟩ := mem_filter.1 hmem
    exact hPQ id' version (by simpa using hid) (h.waiting hmem)

end

/-! ## Counting missing versions -/

/-- The map has one entry for each of its column families, and the missing versions are counted. -/
structure Counted (a : AtomicVersions V) : Prop where
  nodup : (a.atomicUpdateVersions.map Prod.fst).Nodup
  missing : a.atomicUpdateVersionsMissing =
    a.atomicUpdateVersions.countP fun entry => entry.2.isNone

/-- The count of missing versions without one family. -/
lemma Counted.missingWithout (h : a.Counted) (id : ℕ) : a.missingWithout id =
    (a.atomicUpdateVersions.filter fun entry => entry.1 ≠ id).countP
      fun entry => entry.2.isNone := by
  rw [AtomicVersions.missingWithout, h.missing]
  cases hfind : a.find id with
  | none =>
    rw [Keyed.filter_ne (find_eq_none.1 hfind)]
    simp
  | some entry =>
    obtain ⟨hmem, rfl⟩ := mem_of_find hfind
    have hcount := (Keyed.perm_filter_ne h.nodup hmem).countP_eq fun entry => entry.2.isNone
    rw [countP_cons] at hcount
    simp only [Option.any_some]
    split_ifs at hcount ⊢ <;> omega

/-- Entering a version keeps the count right. -/
lemma Counted.put (h : a.Counted) (id : ℕ) (version : V) : (a.put id version).Counted := by
  refine ⟨by rw [keys_put]; exact h.nodup, ?_⟩
  have hmissing : (a.put id version).atomicUpdateVersionsMissing = a.missingWithout id := rfl
  rw [hmissing, h.missingWithout, AtomicVersions.put, countP_filter, countP_map]
  refine countP_congr fun entry _ => ?_
  simp only [comp_apply]
  split_ifs with hid
  · simp [hid]
  · simp [hid]

/-- Dropping a family does. -/
lemma Counted.dropCf (h : a.Counted) (id : ℕ) : (a.dropCf id).Counted :=
  ⟨h.nodup.sublist (filter_sublist.map _), h.missingWithout id⟩

/-- After a completed group nothing is missing. -/
lemma counted_apply (completed : a.completed) : a.apply.Counted :=
  ⟨nodup_nil, of_decide_eq_true completed⟩

/-- At the beginning all versions are missing. -/
lemma counted_beginGroup {ids : List ℕ} (nodup : ids.Nodup) (a : AtomicVersions V) :
    (a.beginGroup ids).Counted := by
  have hkeys : (ids.map fun id => ((id, none) : ℕ × Option V)).map Prod.fst = ids := by
    rw [List.map_map]
    exact map_id ids
  refine ⟨by rw [beginGroup, hkeys]; exact nodup, ?_⟩
  rw [beginGroup, countP_map]
  exact (countP_eq_length.2 fun _ _ => rfl).symm

/-- Once nothing is missing, every entry has a version. -/
lemma Counted.exists_version (h : a.Counted) (completed : a.completed)
    (hid : id ∈ a.atomicUpdateVersions.map Prod.fst) :
    ∃ version, a.find id = some (id, some version) := by
  obtain ⟨entry, hfind⟩ := ne_none_iff_exists'.1 (mt find_eq_none.1 (not_not.2 hid))
  obtain ⟨hmem, rfl⟩ := mem_of_find hfind
  have hnone : a.atomicUpdateVersions.countP (fun entry => entry.2.isNone) = 0 :=
    h.missing.symm.trans (of_decide_eq_true completed)
  have hsome := countP_eq_zero.1 hnone entry hmem
  obtain ⟨version, hversion⟩ := ne_none_iff_exists'.1 (show entry.2 ≠ none by simpa using hsome)
  exact ⟨version, by rw [hfind, ← hversion]⟩

end AtomicVersions

/-! ## The events of a manifest -/

/-- What an entry of a manifest means to the versions: a column family is added or dropped, or an
atomic group has edits of some column families. -/
inductive Event
  | add (id : ℕ)
  | drop (id : ℕ)
  | group (ids : List ℕ)
  | other
deriving DecidableEq

/-- The column family took part in the group at a place and was not dropped since. -/
def Bound (events : List Event) (i id : ℕ) : Prop :=
  ∃ ids, events[i]? = some (.group ids) ∧ id ∈ ids ∧ .drop id ∉ events.drop (i + 1)

section Bound

variable {events : List Event} {e : Event} {i id : ℕ}

/-- An event that binds has happened. -/
lemma Bound.lt (h : Bound events i id) : i < events.length := by
  obtain ⟨ids, hgroup, -⟩ := h
  exact (List.getElem?_eq_some_iff.1 hgroup).1

/-- One more event: a place before it, or the new one. -/
lemma Bound.of_append (h : Bound (events ++ [e]) i id) :
    Bound events i id ∧ e ≠ .drop id ∨ i = events.length ∧ ∃ ids, e = .group ids ∧ id ∈ ids := by
  have hlt := h.lt
  obtain ⟨ids, hgroup, hmem, hdrop⟩ := h
  rw [length_append, length_singleton] at hlt
  by_cases hi : i < events.length
  · rw [getElem?_append_left hi] at hgroup
    rw [drop_append_of_le_length (by omega), mem_append, not_or, mem_singleton] at hdrop
    exact .inl ⟨⟨ids, hgroup, hmem, hdrop.1⟩, fun he => hdrop.2 he.symm⟩
  · obtain rfl : i = events.length := by omega
    rw [getElem?_concat_length, some.injEq] at hgroup
    exact .inr ⟨rfl, ids, hgroup, hmem⟩

/-- An event that is no group adds no group. -/
lemma getElem?_group_of_append (he : ∀ ids, e ≠ .group ids) {ids : List ℕ}
    (h : (events ++ [e])[i]? = some (.group ids)) : events[i]? = some (.group ids) := by
  by_cases hi : i < events.length
  · rwa [getElem?_append_left hi] at h
  · have hlt := (List.getElem?_eq_some_iff.1 h).1
    rw [length_append, length_singleton] at hlt
    obtain rfl : i = events.length := by omega
    rw [getElem?_concat_length, some.injEq] at h
    exact absurd h (he ids)

end Bound

/-! ## Groups are reflected together -/

/-- For every group, all versions of its column families reflect it, or none does. -/
def AllOrNone (rank : V → ℕ) (events : List Event) (versions : ℕ → Option V) : Prop :=
  ∀ i, (∀ id version, Bound events i id → versions id = some version → i < rank version) ∨
    ∀ id version, Bound events i id → versions id = some version → rank version ≤ i

/-- What holds of the versions. A column family that is known need not be live: it may be one that
is not opened. -/
structure Staged (known live : ℕ → Prop) (rank : V → ℕ) (events : List Event)
    (a : AtomicVersions V) : Prop where
  counted : a.Counted
  stored : a.All fun id version => live id ∧ rank version ≤ events.length
  live_known : ∀ {id}, live id → known id
  bound_known : ∀ {i id}, Bound events i id → known id
  parked : a.atomicUpdateVersions ≠ [] → ∀ {i id}, Bound events i id → live id →
    id ∈ a.atomicUpdateVersions.map Prod.fst
  waiting : ∀ {id version}, (id, some version) ∈ a.atomicUpdateVersions →
    ∀ {i ids}, events[i]? = some (.group ids) → i < rank version
  allOrNone : AllOrNone rank events a.versions
  settled : a.atomicUpdateVersions = [] → ∀ {i id version}, Bound events i id →
    a.versions id = some version → i < rank version

/-- Between two steps versions do not wait if none is missing. -/
structure Protocol (known live : ℕ → Prop) (rank : V → ℕ) (events : List Event)
    (a : AtomicVersions V) : Prop extends Staged known live rank events a where
  unsettled : a.atomicUpdateVersions ≠ [] → a.completed = false

section Steps

variable {known live known' live' : ℕ → Prop} {rank : V → ℕ} {events : List Event}
  {a : AtomicVersions V} {id : ℕ}

open AtomicVersions

/-- At the beginning of a manifest. -/
lemma protocol_empty (hlive_known : ∀ {id}, live id → known id) :
    Protocol known live rank [] {} := by
  have hbound : ∀ {i id}, ¬ Bound [] i id := fun hbound => absurd hbound.lt (Nat.not_lt_zero _)
  refine ⟨⟨⟨nodup_nil, rfl⟩, all_empty, hlive_known, fun h => absurd h hbound,
    fun h => absurd rfl h, fun h => absurd h (by simp),
    fun i => .inl fun _ _ h => absurd h hbound, fun _ {i id version} h => absurd h hbound⟩,
    fun h => absurd rfl h⟩

/-- All versions that wait are taken over once none is missing. -/
lemma Staged.applyIfCompleted (h : Staged known live rank events a) :
    Protocol known live rank events a.applyIfCompleted := by
  by_cases hcompleted : a.completed
  swap
  · rw [AtomicVersions.applyIfCompleted, if_neg hcompleted]
    exact ⟨h, fun _ => Bool.eq_false_iff.2 hcompleted⟩
  rw [AtomicVersions.applyIfCompleted, if_pos hcompleted]
  have hstored := h.stored.apply
  have hsettled : ∀ {i id version}, Bound events i id → a.apply.versions id = some version →
      i < rank version := by
    intro i id version hbound hversion
    by_cases hempty : a.atomicUpdateVersions = []
    · refine h.settled hempty hbound ?_
      rcases versions_apply hversion with hmem | ⟨hversion, -⟩
      · rw [hempty] at hmem
        exact absurd hmem (by simp)
      · exact hversion
    · -- the column family is in the map, so its version is the one that waited
      have hmem := h.parked hempty hbound (hstored.versions hversion).1
      obtain ⟨version', hfind⟩ := h.counted.exists_version hcompleted hmem
      obtain ⟨ids, hgroup, -⟩ := hbound
      rcases versions_apply hversion with hmem | ⟨-, hnone⟩
      · exact h.waiting hmem hgroup
      · exact absurd hfind (hnone version')
  have hempty : a.apply.atomicUpdateVersions = [] := rfl
  refine ⟨⟨counted_apply hcompleted, hstored, h.live_known, h.bound_known,
    fun hne => absurd hempty hne, fun hmem => ?_, fun i => Or.inl fun id version => hsettled,
    fun _ => hsettled⟩, fun hne => absurd hempty hne⟩
  rw [hempty] at hmem
  exact absurd hmem (by simp)

section

variable (h : Protocol known live rank events a)

include h

/-- A version of a live family is added. -/
lemma Protocol.add {version : V} (hlive : live id) (hrank : rank version = events.length) :
    Protocol known live rank events (a.add id version) := by
  have hnew : live id ∧ rank version ≤ events.length := ⟨hlive, hrank.le⟩
  rw [AtomicVersions.add]
  split_ifs with hcontains
  · refine Staged.applyIfCompleted ⟨h.counted.put id version, h.stored.put hnew, h.live_known,
      h.bound_known, fun _ {i id'} hbound hlive' => ?_,
      fun {id' version'} hmem {i ids} hgroup => ?_, h.allOrNone, fun hempty {i id' version'} => ?_⟩
    · rw [keys_put]
      refine h.parked (fun hempty => ?_) hbound hlive'
      rw [contains_iff, hempty] at hcontains
      exact absurd hcontains (by simp)
    · rcases mem_put hmem with heq | hmem
      · cases heq
        rw [hrank]
        exact (List.getElem?_eq_some_iff.1 hgroup).1
      · exact h.waiting hmem hgroup
    · have hkeys := keys_put a id version
      rw [hempty] at hkeys
      rw [contains_iff, ← hkeys] at hcontains
      exact absurd hcontains (by simp)
  · have hsettled : a.atomicUpdateVersions = [] → ∀ {i id' version'}, Bound events i id' →
        (a.setVersion id (some version)).versions id' = some version' → i < rank version' := by
      intro hempty i id' version' hbound hversion
      rcases versions_setVersion hversion with ⟨rfl, heq⟩ | ⟨-, hold⟩
      · cases heq
        rw [hrank]
        exact hbound.lt
      · exact h.settled hempty hbound hold
    -- while versions wait, the column family is in no group
    have hold : a.atomicUpdateVersions ≠ [] → ∀ {i id' version'}, Bound events i id' →
        (a.setVersion id (some version)).versions id' = some version' →
        a.versions id' = some version' := by
      intro hne i id' version' hbound hversion
      rcases versions_setVersion hversion with ⟨rfl, -⟩ | ⟨-, hold⟩
      · exact absurd (AtomicVersions.contains_iff.2 (h.parked hne hbound hlive)) hcontains
      · exact hold
    refine ⟨⟨⟨h.counted.nodup, h.counted.missing⟩, h.stored.setVersion hnew, h.live_known,
      h.bound_known, h.parked, h.waiting, fun i => ?_, hsettled⟩, h.unsettled⟩
    by_cases hempty : a.atomicUpdateVersions = []
    · exact Or.inl fun id' version' => hsettled hempty
    · refine (h.allOrNone i).imp (fun hall id' version' hbound hversion => ?_)
        fun hnone id' version' hbound hversion => ?_
      · exact hall id' version' hbound (hold hempty hbound hversion)
      · exact hnone id' version' hbound (hold hempty hbound hversion)

/-- An event that is no group, after which no other column family that was known is live. -/
lemma Protocol.append {e : Event}
    (he : ∀ ids, e ≠ .group ids) (hlive_known : ∀ {id}, live' id → known' id)
    (hknown : ∀ {id}, known id → e ≠ .drop id → known' id)
    (hlive : ∀ {id}, live id → live' id) (hback : ∀ {id}, known id → live' id → live id) :
    Protocol known' live' rank (events ++ [e]) a := by
  have hbound : ∀ {i id}, Bound (events ++ [e]) i id → Bound events i id := by
    intro i id hbound
    rcases hbound.of_append with ⟨hbound, -⟩ | ⟨-, ids, hgroup, -⟩
    · exact hbound
    · exact absurd hgroup (he ids)
  refine ⟨⟨h.counted, h.stored.imp fun id version hstored => ⟨hlive hstored.1, ?_⟩, hlive_known,
    fun {i id} hb => ?_, fun hne {i id} hb hlive' => ?_, fun {id version} hmem {i ids} hgroup => ?_,
    fun i => ?_, fun hempty {i id version} hb => h.settled hempty (hbound hb)⟩, h.unsettled⟩
  · rw [length_append]
    exact Nat.le_add_right_of_le hstored.2
  · rcases hb.of_append with ⟨hb, hdrop⟩ | ⟨-, ids, hgroup, -⟩
    · exact hknown (h.bound_known hb) hdrop
    · exact absurd hgroup (he ids)
  · exact h.parked hne (hbound hb) (hback (h.bound_known (hbound hb)) hlive')
  · exact h.waiting hmem (getElem?_group_of_append he hgroup)
  · exact (h.allOrNone i).imp (fun hall id version hb => hall id version (hbound hb))
      fun hnone id version hb => hnone id version (hbound hb)

/-- Dropping a column family, in one step with the others. -/
lemma Protocol.drop_eq (id : ℕ) :
    a.drop id = ((a.setVersion id none).dropCf id).applyIfCompleted := by
  have hnone : ((a.setVersion id none).dropCf id).find id = none := by
    rw [find_eq_none]
    intro hmem
    obtain ⟨entry, hentry, hid⟩ := mem_map.1 hmem
    exact absurd hid (by simpa using (mem_filter.1 hentry).2)
  rw [AtomicVersions.drop]
  split_ifs with hcontains
  · rw [AtomicVersions.applyIfCompleted, AtomicVersions.applyIfCompleted]
    have hcompleted : ((a.setVersion id none).dropCf id).completed = (a.dropCf id).completed := rfl
    rw [hcompleted]
    split_ifs
    · simp only [setVersion, apply, mk.injEq]
      refine ⟨?_, trivial, rfl⟩
      funext id'
      by_cases hid : id' = id
      · have hnone' : ((a.setVersion id none).dropCf id).find id = none := hnone
        rw [hid, update_self]
        rw [setVersion] at hnone'
        rw [hnone']
        exact (update_self id none a.versions).symm
      · rw [update_of_ne hid]
        have hold : (update a.versions id none) id' = a.versions id' :=
          update_of_ne hid none a.versions
        exact congrArg (Option.or _) hold.symm
    · rfl
  · have hself : (a.setVersion id none).dropCf id = a.setVersion id none := by
      have hfind : a.find id = none := by
        rwa [find_eq_none, ← contains_iff]
      have hfilter := Keyed.filter_ne (find_eq_none.1 hfind)
      have hmissing : (a.setVersion id none).missingWithout id = a.atomicUpdateVersionsMissing := by
        have hfind' : (a.setVersion id none).find id = none := hfind
        rw [missingWithout, hfind']
        rfl
      rw [dropCf, hmissing]
      simp only [setVersion, hfilter]
    rw [hself, applyIfCompleted]
    split_ifs with hcompleted
    · have hempty : a.atomicUpdateVersions = [] := by
        by_contra hne
        exact absurd hcompleted (Bool.eq_false_iff.1 (h.unsettled hne))
      simp [setVersion, apply, find, hempty]
    · rfl

/-- A family is dropped. -/
lemma Protocol.drop (hlive_known : ∀ {id'}, live' id' → known' id')
    (hknown : ∀ {id'}, known id' → id' ≠ id → known' id')
    (hlive : ∀ {id'}, live' id' ↔ live id' ∧ id' ≠ id) :
    Protocol known' live' rank (events ++ [.drop id]) (a.drop id) := by
  have he : ∀ ids, Event.drop id ≠ .group ids := fun ids heq => by cases heq
  have hbound : ∀ {i id'}, Bound (events ++ [.drop id]) i id' → Bound events i id' ∧ id' ≠ id := by
    intro i id' hbound
    rcases hbound.of_append with ⟨hbound, hne⟩ | ⟨-, ids, hgroup, -⟩
    · exact ⟨hbound, fun heq => hne (heq ▸ rfl)⟩
    · exact absurd hgroup (he ids)
  have hversion : ∀ {id' version}, ((a.setVersion id none).dropCf id).versions id' =
      some version → a.versions id' = some version := by
    intro id' version hversion
    rcases versions_setVersion hversion with ⟨-, heq⟩ | ⟨-, hold⟩
    · cases heq
    · exact hold
  rw [h.drop_eq]
  refine Staged.applyIfCompleted ⟨Counted.dropCf (a := a.setVersion id none)
    ⟨h.counted.nodup, h.counted.missing⟩ id, h.stored.erase fun id' version hne hstored =>
      ⟨hlive.2 ⟨hstored.1, hne⟩, ?_⟩, hlive_known,
    fun hb => hknown (h.bound_known (hbound hb).1) (hbound hb).2, fun _ {i id'} hb hlive' => ?_,
    fun {id' version} hmem {i ids} hgroup => ?_, fun i => ?_,
    fun hempty {i id' version} hb hupdate => ?_⟩
  · rw [length_append]
    exact Nat.le_add_right_of_le hstored.2
  · have hne : a.atomicUpdateVersions ≠ [] := by
      rintro hempty
      simp_all [dropCf, setVersion]
    obtain ⟨entry, hentry, rfl⟩ := mem_map.1 (h.parked hne (hbound hb).1 (hlive.1 hlive').1)
    exact mem_map_of_mem (mem_filter.2 ⟨hentry, by simpa using (hbound hb).2⟩)
  · exact h.waiting (mem_filter.1 hmem).1 (getElem?_group_of_append he hgroup)
  · exact (h.allOrNone i).imp
      (fun hall id' version hb hupdate => hall id' version (hbound hb).1 (hversion hupdate))
      fun hnone id' version hb hupdate => hnone id' version (hbound hb).1 (hversion hupdate)
  · by_cases hne : a.atomicUpdateVersions = []
    · exact h.settled hne (hbound hb).1 (hversion hupdate)
    · -- the column family would still be in the map
      have hmem := h.parked hne (hbound hb).1 (h.stored.versions (hversion hupdate)).1
      obtain ⟨entry, hentry, rfl⟩ := mem_map.1 hmem
      have hrest : entry ∈ a.atomicUpdateVersions.filter fun entry => entry.1 ≠ id :=
        mem_filter.2 ⟨hentry, by simpa using (hbound hb).2⟩
      rw [show a.atomicUpdateVersions.filter (fun entry => entry.1 ≠ id) = [] from hempty] at hrest
      exact absurd hrest (by simp)

/-- A group begins. -/
lemma Protocol.beginGroup {ids parts : List ℕ}
    (nodup : ids.Nodup) (hlive : ∀ {id}, live id → id ∈ ids) (hparts : ∀ id ∈ parts, known id) :
    Protocol known live rank (events ++ [.group parts]) (a.beginGroup ids) := by
  have hkeys : (a.beginGroup ids).atomicUpdateVersions.map Prod.fst = ids := by
    rw [AtomicVersions.beginGroup, List.map_map]
    exact List.map_id ids
  have hwaiting : ∀ {id version}, (id, some version) ∉ (a.beginGroup ids).atomicUpdateVersions := by
    intro id version hmem
    obtain ⟨id', -, heq⟩ := mem_map.1 hmem
    cases heq
  have hstored : ∀ {id version}, a.versions id = some version →
      live id ∧ rank version ≤ events.length := fun hversion => h.stored.versions hversion
  refine ⟨⟨counted_beginGroup nodup a, ⟨fun {id version} hversion => ?_,
    fun hmem => absurd hmem hwaiting⟩, h.live_known, fun {i id} hb => ?_, fun _ {i id} _ hl => ?_,
    fun hmem => absurd hmem hwaiting, fun i => ?_,
    fun hempty {i id version} _ hversion => ?_⟩, fun hne => ?_⟩
  · obtain ⟨hl, hle⟩ := hstored hversion
    rw [length_append]
    exact ⟨hl, Nat.le_add_right_of_le hle⟩
  · rcases hb.of_append with ⟨hb, -⟩ | ⟨-, ids', heq, hmem⟩
    · exact h.bound_known hb
    · cases heq
      exact hparts id hmem
  · rw [hkeys]
    exact hlive hl
  · by_cases hi : i = events.length
    · exact Or.inr fun id version _ hversion => hi ▸ (hstored hversion).2
    · have hbound : ∀ {id}, Bound (events ++ [.group parts]) i id → Bound events i id := by
        intro id hb
        rcases hb.of_append with ⟨hb, -⟩ | ⟨heq, -⟩
        · exact hb
        · exact absurd heq hi
      exact (h.allOrNone i).imp (fun hall id version hb => hall id version (hbound hb))
        fun hnone id version hb => hnone id version (hbound hb)
  · have hmem := hlive (hstored hversion).1
    rw [← hkeys, hempty] at hmem
    exact absurd hmem (by simp)
  · refine decide_eq_false fun hzero => hne ?_
    rw [AtomicVersions.beginGroup, eq_nil_of_length_eq_zero hzero]
    rfl

end

end Steps

end BucketLSM.Manifest
