import BucketLSM.Compaction.L0Closure
import BucketLSM.Compaction.Marking

/-!
# Registered compactions

The picker as a state machine: compactions are picked and registered, registered from
elsewhere, released, and new versions are installed. A compaction marks its input files as
being compacted, and the picker is meant to leave marked files alone. `TryPickL0TrivialMove`
does not look at the marks.
-/

namespace BucketLSM

open List FileMetaData Option LevelCompactionBuilder VersionStorageInfo

variable {K D : Type} [LinearOrder K]

/-! ### Marking input files -/

/-- The numbers of the input files. -/
def Compaction.fileNumbers (c : Compaction K) : List ℕ :=
  c.inputs.flatMap fun i => i.files.map FileMetaData.number

lemma Compaction.mem_fileNumbers {c : Compaction K} {n : ℕ} :
    n ∈ c.fileNumbers ↔ ∃ i ∈ c.inputs, ∃ f ∈ i.files, f.number = n := by
  simp [fileNumbers]

/-- `MarkFilesBeingCompacted` on one file. -/
def FileMetaData.mark (numbers : List ℕ) (beingCompacted : Bool) (f : FileMetaData K) :
    FileMetaData K :=
  if f.number ∈ numbers then { f with beingCompacted := beingCompacted } else f

section Mark

variable {numbers : List ℕ} {flag : Bool} {f : FileMetaData K}

@[simp] lemma FileMetaData.number_mark : (f.mark numbers flag).number = f.number := by
  unfold mark
  split_ifs <;> rfl

@[simp] lemma FileMetaData.epochNumber_mark :
    (f.mark numbers flag).epochNumber = f.epochNumber := by
  unfold mark
  split_ifs <;> rfl

lemma FileMetaData.mark_of_mem (h : f.number ∈ numbers) :
    (f.mark numbers flag).beingCompacted = flag := by
  simp [mark, h]

lemma FileMetaData.mark_of_notMem (h : f.number ∉ numbers) : f.mark numbers flag = f := by
  simp [mark, h]

lemma FileMetaData.mark_false (h : f.beingCompacted = false) : f.mark numbers false = f := by
  unfold mark
  split_ifs
  · rw [← h]
  · rfl

end Mark

namespace VersionStorageInfo

/-- The files of all levels. -/
def allFiles (vs : VersionStorageInfo K D) : List (FileMetaData K) :=
  vs.level0.files ++ vs.levels.flatten

lemma mem_allFiles_of_mem_levelFiles {vs : VersionStorageInfo K D} {level : ℕ}
    {f : FileMetaData K} (h : f ∈ vs.levelFiles level) : f ∈ vs.allFiles := by
  unfold levelFiles at h
  cases level with
  | zero => exact mem_append_left _ h
  | succ n =>
    refine mem_append_right _ ?_
    rw [getD_cons_succ] at h
    by_cases hn : n < vs.levels.length
    · rw [getD_eq_getElem _ _ hn] at h
      exact mem_flatten_of_mem (getElem_mem hn) h
    · rw [getD_eq_default _ _ (not_lt.1 hn)] at h
      exact absurd h not_mem_nil

/-- `MarkFilesBeingCompacted` on the files of a version, with the lists of marked files that
hold afterwards. -/
def markFiles (vs : VersionStorageInfo K D) (numbers : List ℕ) (flag : Bool)
    (marked : MarkedFiles K) (hmarked : ∀ p ∈ marked.all, p.2 ∈ ((vs.level0.files :: vs.levels).map
      (List.map (FileMetaData.mark numbers flag))).getD p.1 [] ∧ p.2.beingCompacted = false) :
    VersionStorageInfo K D :=
  { vs with
    level0 :=
      { files := vs.level0.files.map (FileMetaData.mark numbers flag)
        newest_first := List.pairwise_map.2 (by simpa using vs.level0.newest_first)
        numbers_nodup := by
          simpa [Function.comp_def] using vs.level0.numbers_nodup }
    levels := vs.levels.map (List.map (FileMetaData.mark numbers flag))
    marked := marked
    numbers_nodup := by
      simpa [Function.comp_def, ← List.map_flatten] using vs.numbers_nodup
    marked_active := by simpa using hmarked }

/-- The input files of a new compaction are marked, and `ComputeCompactionScore` follows. The
scores are left open. -/
def acquireFiles (vs : VersionStorageInfo K D) (numbers : List ℕ) (scores : List (ℕ × D))
    (env : MarkingEnv) : VersionStorageInfo K D :=
  { vs.markFiles numbers true
      (env.computeMarkedFiles ((vs.level0.files :: vs.levels).map
        (List.map (FileMetaData.mark numbers true))))
      (env.computeMarkedFiles_active _) with
    compactionScore := scores }

/-- The input files of a compaction are no longer marked. -/
def releaseFiles (vs : VersionStorageInfo K D) (numbers : List ℕ) : VersionStorageInfo K D :=
  vs.markFiles numbers false vs.marked fun p hp => by
    obtain ⟨hmem, hfree⟩ := vs.marked_active p hp
    refine ⟨?_, hfree⟩
    rw [show ([] : List (FileMetaData K)) = [].map (FileMetaData.mark numbers false) from rfl,
      List.getD_map]
    exact List.mem_map.2 ⟨p.2, hmem, FileMetaData.mark_false hfree⟩

@[simp] lemma allFiles_acquireFiles (vs : VersionStorageInfo K D) (numbers : List ℕ)
    (scores : List (ℕ × D)) (env : MarkingEnv) : (vs.acquireFiles numbers scores env).allFiles =
      vs.allFiles.map (FileMetaData.mark numbers true) := by
  simp [allFiles, acquireFiles, markFiles, ← map_flatten]

@[simp] lemma allFiles_releaseFiles (vs : VersionStorageInfo K D) (numbers : List ℕ) :
    (vs.releaseFiles numbers).allFiles = vs.allFiles.map (FileMetaData.mark numbers false) := by
  simp [allFiles, releaseFiles, markFiles, ← map_flatten]

end VersionStorageInfo

/-! ### The picker -/

/-- The picker of a column family, with the current version. -/
structure PickerState (K D : Type) [LinearOrder K] where
  vstorage : VersionStorageInfo K D
  compactionsInProgress : List (Compaction K)

/-- What a pick reads besides the state. -/
structure PickOptions (D : Type) where
  mopts : MutableCFOptions D
  iopts : ImmutableOptions D
  shuffle : Shuffle
  randomFileIndex : ℕ

namespace PickerState

/-- The context of a pick. -/
def context (s : PickerState K D) (o : PickOptions D) : PickContext K D :=
  ⟨s.vstorage, s.compactionsInProgress, o.mopts, o.iopts, o.shuffle, o.randomFileIndex⟩

@[simp] lemma context_vstorage (s : PickerState K D) (o : PickOptions D) :
    (s.context o).vstorage = s.vstorage := rfl

/-- `RegisterCompaction`, after the constructor of the compaction has marked its files. -/
def register (s : PickerState K D) (c : Compaction K) (scores : List (ℕ × D))
    (env : MarkingEnv) : PickerState K D :=
  ⟨s.vstorage.acquireFiles c.fileNumbers scores env, c :: s.compactionsInProgress⟩

/-- `PickCompaction` with the registration of its result. -/
def pick [Double D] (s : PickerState K D) (o : PickOptions D) (scores : List (ℕ × D))
    (env : MarkingEnv) : PickerState K D :=
  let (picked, index) := LevelCompactionBuilder.pickCompaction (s.context o)
  let s := { s with vstorage := { s.vstorage with nextCompactionIndex := index } }
  match picked with
  | none => s
  | some c => s.register c scores env

/-- `ReleaseCompactionFiles`. A compaction that failed resets the index of its level. -/
def release (s : PickerState K D) (c : Compaction K) (ok : Bool) : PickerState K D :=
  let vstorage := s.vstorage.releaseFiles c.fileNumbers
  { vstorage := if ok then vstorage else { vstorage with
      nextCompactionIndex := Function.update vstorage.nextCompactionIndex c.startLevel 0 }
    compactionsInProgress := s.compactionsInProgress.erase c }

/-- A version may follow the current one: it keeps files, and its new files are not being
compacted and have numbers that no file of the version and no registered compaction has. -/
def MayInstall (s : PickerState K D) (vs : VersionStorageInfo K D) : Prop :=
  (∃ env : MarkingEnv, vs.marked = env.computeMarkedFiles (vs.level0.files :: vs.levels)) ∧
  ∀ f ∈ vs.allFiles, f ∈ s.vstorage.allFiles ∨
    f.beingCompacted = false ∧ (∀ g ∈ s.vstorage.allFiles, g.number ≠ f.number) ∧
      ∀ c ∈ s.compactionsInProgress, f.number ∉ c.fileNumbers

/-- One step; `guard` restricts the picks. Compactions registered from elsewhere, such as
manual ones, take files of the version that are not being compacted. -/
inductive Step [Double D] (guard : PickerState K D → PickOptions D → Prop)
    (s : PickerState K D) : PickerState K D → Prop
  | pick (o : PickOptions D) (scores : List (ℕ × D)) (env : MarkingEnv)
      (hmode : o.iopts.useNewFlush ≠ 0) (hguard : guard s o) : Step guard s (s.pick o scores env)
  | register (c : Compaction K) (scores : List (ℕ × D)) (env : MarkingEnv)
      (hfree : ∀ i ∈ c.inputs, ∀ f ∈ i.files, f ∈ s.vstorage.allFiles ∧ f.beingCompacted = false) :
      Step guard s (s.register c scores env)
  | release (c : Compaction K) (ok : Bool) (hc : c ∈ s.compactionsInProgress) :
      Step guard s (s.release c ok)
  | install (vs : VersionStorageInfo K D) (hvs : s.MayInstall vs) :
      Step guard s { s with vstorage := vs }

/-- Two compactions have no input file in common. -/
def Apart (c c' : Compaction K) : Prop := ∀ n ∈ c.fileNumbers, n ∉ c'.fileNumbers

/-- No file is an input of two registered compactions, and the inputs of each of them are
marked. -/
structure Exclusive (s : PickerState K D) : Prop where
  apart : s.compactionsInProgress.Pairwise Apart
  marked : ∀ c ∈ s.compactionsInProgress, ∀ f ∈ s.vstorage.allFiles,
    f.number ∈ c.fileNumbers → f.beingCompacted = true

variable {s : PickerState K D} {vs : VersionStorageInfo K D} {f : FileMetaData K}
  {range : Option (InternalKey K × InternalKey K)} {taken : List (FileMetaData K)}

/-! ### Steps that keep compactions apart -/

lemma Exclusive.register (h : s.Exclusive) {c : Compaction K}
    (hfree : ∀ i ∈ c.inputs, ∀ f ∈ i.files, f ∈ s.vstorage.allFiles ∧ f.beingCompacted = false)
    (scores : List (ℕ × D)) (env : MarkingEnv) : (s.register c scores env).Exclusive := by
  constructor
  · refine pairwise_cons.2 ⟨fun c' hc' n hn hn' => ?_, h.apart⟩
    obtain ⟨i, hi, f, hf, rfl⟩ := Compaction.mem_fileNumbers.1 hn
    obtain ⟨hmem, hunmarked⟩ := hfree i hi f hf
    exact Bool.false_ne_true (hunmarked.symm.trans (h.marked c' hc' f hmem hn'))
  · intro c' hc' f hf hn
    rw [PickerState.register, allFiles_acquireFiles] at hf
    obtain ⟨g, hg, rfl⟩ := mem_map.1 hf
    rw [number_mark] at hn
    by_cases hgc : g.number ∈ c.fileNumbers
    · exact mark_of_mem hgc
    · rw [mark_of_notMem hgc]
      rcases mem_cons.1 hc' with rfl | hc'
      · exact absurd hn hgc
      · exact h.marked c' hc' g hg hn

lemma Exclusive.release (h : s.Exclusive) {c : Compaction K} (hc : c ∈ s.compactionsInProgress)
    (ok : Bool) : (s.release c ok).Exclusive := by
  have hsymm : Std.Symm (Apart (K := K)) := ⟨fun c c' hcc n hn hn' => hcc n hn' hn⟩
  have hapart := (pairwise_cons.1 ((perm_cons_erase hc).pairwise_iff
    (fun h => hsymm.symm _ _ h) |>.1 h.apart)).1
  constructor
  · exact h.apart.sublist erase_sublist
  · intro c' hc' f hf hn
    have hfiles : (s.release c ok).vstorage.allFiles =
        s.vstorage.allFiles.map (mark c.fileNumbers false) := by
      rw [← allFiles_releaseFiles]
      cases ok <;> rfl
    rw [hfiles] at hf
    obtain ⟨g, hg, rfl⟩ := mem_map.1 hf
    rw [number_mark] at hn
    rw [mark_of_notMem fun hgc => hapart c' hc' _ hgc hn]
    exact h.marked c' (mem_of_mem_erase hc') g hg hn

lemma Exclusive.install (h : s.Exclusive) (hvs : s.MayInstall vs) :
    Exclusive { s with vstorage := vs } := by
  refine ⟨h.apart, fun c hc f hf hn => ?_⟩
  rcases hvs.2 f hf with hold | ⟨-, -, hfresh⟩
  · exact h.marked c hc f hold hn
  · exact absurd hn (hfresh c hc)

/-! ### Trivial moves -/

/-- One of the files, newest first, reaches into the range of the files after it. -/
def Entangled (files : List (FileMetaData K)) : Prop :=
  ∃ y older, (y :: older) <:+ files ∧
    ∃ a ∈ older, ∃ b ∈ older, a.smallest ≤ y.largest ∧ y.smallest ≤ b.largest

/-- A level-0 file and the older ones after it are not moved to the base level: trivial moves
are off, the file is in the way of a compaction into the base level, the files overlap, or
the base level has a file in every range that covers them. -/
def HeldBack (s : PickerState K D) (o : PickOptions D) (f : FileMetaData K)
    (older : List (FileMetaData K)) : Prop :=
  ¬ LevelCompactionBuilder.TrivialMovesEnabled (s.context o) ∨
  rangeOverlapWithCompaction s.compactionsInProgress f.smallest.userKey f.largest.userKey
    s.vstorage.baseLevel = true ∨
  Entangled (f :: older) ∨
  ∀ r, (∀ g ∈ f :: older, Spans r g.range) →
    (s.vstorage.getOverlappingInputs s.vstorage.baseLevel r.1 r.2 none true).1 ≠ []

/-- Each level-0 file that is being compacted is held back from trivial moves. -/
def MarkedFilesHeldBack (s : PickerState K D) (o : PickOptions D) : Prop :=
  ∀ f older, (f :: older) <:+ s.vstorage.level0.files → f.beingCompacted = true →
    s.HeldBack o f older

/-- The files a trivial move has taken, newest first, lie in its range and apart from each
other. -/
structure TakenBy (range : Option (InternalKey K × InternalKey K))
    (taken : List (FileMetaData K)) : Prop where
  ordered : ∀ r, range = some r → r.1 ≤ r.2
  spans : ∀ g ∈ taken, ∃ r, range = some r ∧ Spans r g.range
  notEntangled : ¬ Entangled taken

lemma not_entangled_cons {older : List (FileMetaData K)} (holder : ¬ Entangled older)
    (hf : ∀ a ∈ older, ∀ b ∈ older, a.smallest ≤ f.largest → ¬ f.smallest ≤ b.largest) :
    ¬ Entangled (f :: older) := by
  rintro ⟨y, rest, hsuffix, a, ha, b, hb, hay, hyb⟩
  rcases suffix_cons_iff.1 hsuffix with heq | hsuffix
  · obtain ⟨rfl, rfl⟩ := cons.inj heq
    exact hf a ha b hb hay hyb
  · exact holder ⟨y, rest, hsuffix, a, ha, b, hb, hay, hyb⟩

open LevelCompactionBuilder in
lemma TakenBy.extendRange (h : TakenBy range taken) {r : InternalKey K × InternalKey K}
    (hr : extendRange range f = some r) : TakenBy (some r) (f :: taken) := by
  cases range with
  | none =>
    have hnone : ∀ g, g ∉ taken := fun g hg => by simpa using h.spans g hg
    obtain rfl := some.inj hr
    refine ⟨fun r hr => some.inj hr ▸ f.smallest_le_largest, fun g hg => ⟨_, rfl, ?_⟩,
      not_entangled_cons h.notEntangled fun a ha => absurd ha (hnone a)⟩
    obtain rfl := (mem_cons.1 hg).resolve_right (hnone g)
    exact ⟨le_rfl, le_rfl⟩
  | some r₀ =>
    have hordered := h.ordered r₀ rfl
    have hspans : ∀ g ∈ taken, Spans r₀ g.range := fun g hg => by
      obtain ⟨r', hr', hg⟩ := h.spans g hg
      exact some.inj hr' ▸ hg
    have hfile := f.smallest_le_largest
    -- the new range covers the old one and the file
    have hcover : Spans r r₀ ∧ Spans r f.range ∧ (f.largest < r₀.1 ∨ r₀.2 < f.smallest) := by
      simp only [extendRange] at hr
      split_ifs at hr with hbelow habove
      · obtain rfl := some.inj hr
        exact ⟨⟨hfile.trans hbelow.le, le_rfl⟩, ⟨le_rfl, hbelow.le.trans hordered⟩, Or.inl hbelow⟩
      · obtain rfl := some.inj hr
        exact ⟨⟨le_rfl, habove.le.trans hfile⟩, ⟨hordered.trans habove.le, le_rfl⟩, Or.inr habove⟩
    obtain ⟨hold, hnew, haway⟩ := hcover
    refine ⟨fun r' hr' => some.inj hr' ▸ hnew.1.trans (hfile.trans hnew.2),
      fun g hg => ⟨r, rfl, ?_⟩, not_entangled_cons h.notEntangled fun a ha b hb haf hfb => ?_⟩
    · rcases mem_cons.1 hg with rfl | hg
      · exact hnew
      · exact hold.trans (hspans g hg)
    · rcases haway with hbelow | habove
      · exact absurd (haf.trans_lt hbelow) (not_lt.2 (hspans a ha).1)
      · exact absurd (habove.trans_le hfb) (not_lt.2 (hspans b hb).2)

open LevelCompactionBuilder in
/-- What holds of a file a trivial move takes: with the files taken before, all older ones, it
lies in a range without files in the output level. -/
lemma TakenBy.of_mem_trivialMoveLoop {out : ℕ} {files : List (FileMetaData K)}
    (h : TakenBy range taken) (hf : f ∈ trivialMoveLoop vs out range files) :
    ∃ before after r, files = before ++ f :: after ∧
      TakenBy (some r) (f :: (before.reverse ++ taken)) ∧
      (vs.getOverlappingInputs out r.1 r.2 none true).1 = [] := by
  induction files generalizing range taken with
  | nil => exact absurd hf not_mem_nil
  | cons g files ih =>
    rw [trivialMoveLoop] at hf
    split at hf
    · exact absurd hf not_mem_nil
    · rename_i r hr
      split_ifs at hf with hempty
      · rcases mem_cons.1 hf with rfl | hf
        · exact ⟨[], files, r, rfl, h.extendRange hr, hempty⟩
        · obtain ⟨before, after, r', rfl, htaken, hempty'⟩ := ih (h.extendRange hr) hf
          exact ⟨g :: before, after, r', rfl, by simpa using htaken, hempty'⟩
      · exact absurd hf not_mem_nil

section Runs

variable [Double D]

variable {s : PickerState K D}

open LevelCompactionBuilder in
/-- If marked files are held back, a pick takes files that are not marked. -/
lemma free_of_pick {o : PickOptions D} (hmode : o.iopts.useNewFlush ≠ 0)
    (hheld : s.MarkedFilesHeldBack o) {c : Compaction K}
    (hpick : (pickCompaction (s.context o)).1 = some c) :
    ∀ i ∈ c.inputs, ∀ f ∈ i.files, f ∈ s.vstorage.allFiles ∧ f.beingCompacted = false := by
  have hpicked := pickedCompaction hmode hpick
  intro i hi f hf
  refine ⟨mem_allFiles_of_mem_levelFiles (hpicked.fromLevel i hi f hf), ?_⟩
  rcases hpicked.free_or_trivial with hfree | ⟨hstart, henabled, hout, files, hinputs, hmem⟩
  · exact hfree i hi f hf
  · obtain rfl : i = ⟨0, files⟩ := by simpa [hinputs] using hi
    by_contra hmarked
    have hnone : TakenBy none ([] : List (FileMetaData K)) :=
      ⟨fun r hr => by simp at hr, fun g hg => absurd hg not_mem_nil,
        fun ⟨y, older, hsuffix, _⟩ => by simp at hsuffix⟩
    obtain ⟨before, after, r, hlist, htaken, hempty⟩ :=
      hnone.of_mem_trivialMoveLoop ((hmem f).1 hf)
    have hrev : s.vstorage.levelFiles 0 = after.reverse ++ f :: before.reverse := by
      simpa using congrArg reverse hlist
    have hsuffix : (f :: before.reverse) <:+ s.vstorage.level0.files :=
      ⟨after.reverse, hrev.symm⟩
    rw [append_nil] at htaken
    rcases hheld f before.reverse hsuffix (by simpa using hmarked) with h | h | h | h
    · exact h henabled
    · have hconflict := filesRangeOverlapWithCompaction_of_mem
        (evaluateProximalLevel o.mopts o.iopts c.startLevel c.outputLevel) hi rfl hf h
      have hno := hpicked.no_conflict (hout ▸ henabled.1)
      rw [hout] at hno
      exact absurd hconflict (by simpa [conflicts, context, hout] using hno)
    · exact htaken.notEntangled h
    · refine h r (fun g hg => ?_) hempty
      obtain ⟨r', hr', hspans⟩ := htaken.spans g hg
      exact some.inj hr' ▸ hspans

lemma Exclusive.pick (h : s.Exclusive) {o : PickOptions D} (hmode : o.iopts.useNewFlush ≠ 0)
    (hheld : s.MarkedFilesHeldBack o) (scores : List (ℕ × D)) (env : MarkingEnv) :
    (s.pick o scores env).Exclusive := by
  have hfree := fun c hpick => free_of_pick (c := c) hmode hheld hpick
  unfold PickerState.pick
  generalize pickCompaction (s.context o) = result at hfree ⊢
  obtain ⟨picked, index⟩ := result
  have h' : Exclusive { s with vstorage := { s.vstorage with nextCompactionIndex := index } } :=
    ⟨h.apart, h.marked⟩
  cases picked with
  | none => exact h'
  | some c => exact h'.register (hfree c rfl) scores env

lemma Exclusive.step {s' : PickerState K D} (h : s.Exclusive)
    (hstep : Step MarkedFilesHeldBack s s') : s'.Exclusive := by
  cases hstep with
  | pick o scores env hmode hheld => exact h.pick hmode hheld scores env
  | register c scores env hfree => exact h.register hfree scores env
  | release c ok hc => exact h.release hc ok
  | install vs hvs => exact h.install hvs

/-- From a state without compactions, along steps whose picks meet the condition, no file is
ever an input of two registered compactions, and such a pick takes no marked file. -/
theorem registered_compactions_stay_exclusive {s s' : PickerState K D}
    (hstart : s.compactionsInProgress = [])
    (hrun : Relation.ReflTransGen (Step MarkedFilesHeldBack) s s') :
    s'.Exclusive ∧ ∀ o : PickOptions D, o.iopts.useNewFlush ≠ 0 → s'.MarkedFilesHeldBack o →
      ∀ c, (LevelCompactionBuilder.pickCompaction (s'.context o)).1 = some c →
        ∀ i ∈ c.inputs, ∀ f ∈ i.files, f.beingCompacted = false := by
  have hexclusive : s'.Exclusive := by
    induction hrun with
    | refl => exact ⟨by simp [hstart], by simp [hstart]⟩
    | tail _ hstep ih => exact ih.step hstep
  exact ⟨hexclusive, fun o hmode hheld c hpick i hi f hf =>
    (free_of_pick hmode hheld hpick i hi f hf).2⟩

end Runs

/-! ### A file in two compactions -/

/-- The options of the run below: every level stays in place on a periodic compaction. -/
def periodicOptions : PickOptions ℚ where
  mopts := ⟨2, 1000, 10, true, 0⟩
  iopts := ⟨2, true, false, 0, .minOverlappingRatio, false, 2, 1⟩
  shuffle := ⟨id, List.Perm.refl⟩
  randomFileIndex := 0

/-- Nothing is marked. -/
def idleEnv : MarkingEnv := ⟨false, 0, 0, none, 0, fun _ => none, fun _ => false, 0, 0, []⟩

/-- The score that `ComputeCompactionScore` gives level 0 in bucket mode, with the trigger of these
options. There is no other level to compact from. -/
def level0Scores (files : List (FileMetaData Slice)) : List (ℕ × ℚ) :=
  [(0, calculateMaxOverlappingGroupSize ⟨id, Perm.refl⟩ files / 2)]

/-- One level-0 file, due for a periodic compaction, and a file of another key in level 1. -/
def periodicState : PickerState Slice ℚ where
  vstorage :=
    { level0 := ⟨[valueFile 2 1 [97] 1], by decide, by decide⟩
      levels := [[valueFile 1 1 [122] 0]]
      baseLevel := 1
      compactionScore := level0Scores [valueFile 2 1 [97] 1]
      filesByCompactionPri := fun _ => []
      nextCompactionIndex := fun _ => 0
      maxBytesForLevel := fun _ => 0
      marked := ⟨[], [], [], [(0, valueFile 2 1 [97] 1)], []⟩
      numbers_nodup := by decide
      marked_active := by decide }
  compactionsInProgress := []

/-- With no marked file the condition holds, and the pick leaves one compaction. -/
theorem registered_compactions_stay_exclusive_periodic :
    (periodicState.pick periodicOptions (level0Scores [valueFile 2 1 [97] 1]) idleEnv).compactionsInProgress.map
      Compaction.fileNumbers = [[2]] ∧
    (periodicState.pick periodicOptions (level0Scores [valueFile 2 1 [97] 1]) idleEnv).Exclusive := by
  have hheld : periodicState.MarkedFilesHeldBack periodicOptions := by
    intro f older hsuffix hmarked
    have hfree : ∀ g ∈ periodicState.vstorage.level0.files, g.beingCompacted = false := by decide
    exact absurd (hfree f (hsuffix.subset mem_cons_self)) (by simp [hmarked])
  exact ⟨by decide +kernel, (registered_compactions_stay_exclusive rfl
    (.tail .refl (.pick periodicOptions _ idleEnv (by decide) hheld))).1⟩

/-- The level-0 files after two flushes of one key during that compaction. -/
def flushedFiles : List (FileMetaData Slice) :=
  [valueFile 4 3 [98] 3, valueFile 3 2 [98] 2,
    { valueFile 2 1 [97] 1 with beingCompacted := true }]

/-- The version with these files, whose score reaches 1. -/
def flushedVersion : VersionStorageInfo Slice ℚ where
  level0 := ⟨flushedFiles, by decide, by decide⟩
  levels := [[valueFile 1 1 [122] 0]]
  baseLevel := 1
  compactionScore := level0Scores flushedFiles
  filesByCompactionPri := fun _ => []
  nextCompactionIndex := fun _ => 0
  maxBytesForLevel := fun _ => 0
  marked := ⟨[], [], [], [], []⟩
  numbers_nodup := by decide
  marked_active := by decide

/-- The file is picked for its periodic compaction, and again, with a new file, for a trivial move
while that compaction runs. -/
theorem trivial_move_takes_file_in_use :
    ∃ s s' : PickerState Slice ℚ, s.compactionsInProgress = [] ∧
      Relation.ReflTransGen (Step fun _ _ => True) s s' ∧
      s'.compactionsInProgress.map Compaction.fileNumbers = [[2, 3], [2]] ∧ ¬ s'.Exclusive := by
  let s₁ := periodicState.pick periodicOptions (level0Scores [valueFile 2 1 [97] 1]) idleEnv
  let s₂ : PickerState Slice ℚ := { s₁ with vstorage := flushedVersion }
  have hinstall : s₁.MayInstall flushedVersion := by
    refine ⟨⟨idleEnv, rfl⟩, ?_⟩
    decide +kernel
  have hnumbers : (s₂.pick periodicOptions (level0Scores flushedFiles)
      idleEnv).compactionsInProgress.map Compaction.fileNumbers = [[2, 3], [2]] := by
    decide +kernel
  refine ⟨periodicState, s₂.pick periodicOptions (level0Scores flushedFiles) idleEnv, rfl, ?_,
    hnumbers, fun h => ?_⟩
  · exact .tail (.tail (.tail .refl (.pick _ _ _ (by decide) trivial)) (.install _ hinstall))
      (.pick _ _ _ (by decide) trivial)
  · have happart : ([[2, 3], [2]] : List (List ℕ)).Pairwise fun l l' => ∀ n ∈ l, n ∉ l' :=
      hnumbers ▸ pairwise_map.2 h.apart
    exact absurd happart (by decide)

end PickerState

end BucketLSM
