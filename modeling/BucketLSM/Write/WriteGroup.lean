import BucketLSM.Lib.Segment

/-!
# Write groups

Writers wait in a linked list that other threads push onto without a lock (`db/write_thread.cc`).
The writer at the old end becomes the leader of a group: it takes the writers that are compatible
with it and moves the others behind the group. The forward links of the list are made only then, and
while the leader works on the list new writers arrive.
-/

namespace BucketLSM.Write

open BucketLSM.Lib List Function Option

/-- The options of a `Writer` that decide about its group. The batch is given by its size in bytes,
and the callback by whether it allows batching. -/
structure Writer where
  batch : Option ℕ
  sync : Bool := false
  noSlowdown : Bool := false
  disableWal : Bool := false
  rateLimiterPriority : ℕ := 4
  protectionBytesPerKey : ℕ := 0
  callback : Option Bool := none
  ingestWbwi : Bool := false
deriving DecidableEq

/-- The links of the writers, which of them belong to the group, and `newest_writer_`. -/
structure Links where
  linkOlder : ℕ → Option ℕ
  linkNewer : ℕ → Option ℕ
  writeGroup : ℕ → Bool
  newestWriter : Option ℕ

namespace Links

def setOlder (s : Links) (w : ℕ) (older : Option ℕ) : Links :=
  { s with linkOlder := Function.update s.linkOlder w older }

def setNewer (s : Links) (w : ℕ) (newer : Option ℕ) : Links :=
  { s with linkNewer := Function.update s.linkNewer w newer }

def join (s : Links) (w : ℕ) : Links :=
  { s with writeGroup := Function.update s.writeGroup w true }

end Links

/-- `LinkOne`, once its exchange succeeds. -/
def linkOne (s : Links) (w : ℕ) : Links :=
  { s.setOlder w s.newestWriter with newestWriter := some w }

/-- The links, and the writers that other threads will push: those of the first list arrive before
the next turn of a loop of the leader. -/
structure World where
  links : Links
  arrivals : List (List ℕ)

/-- The next writers arrive. -/
def World.arrive (s : World) : World :=
  ⟨(s.arrivals.headD []).foldl linkOne s.links, s.arrivals.tail⟩

/-- A null link was followed, or a loop had no end. -/
inductive Fault
  | nullLink
  | outOfFuel
deriving DecidableEq

/-- `CreateMissingNewerLinks`. -/
def createMissingNewerLinks : ℕ → ℕ → World → Except Fault World
  | 0, _, _ => .error .outOfFuel
  | fuel + 1, head, s =>
    let s := s.arrive
    match s.links.linkOlder head with
    | none => .ok s
    | some next =>
      if s.links.linkNewer next ≠ none then .ok s
      else createMissingNewerLinks fuel next { s with links := s.links.setNewer next (some head) }

/-- The condition that keeps a writer out of the group. -/
def rejects (leader w : Writer) (size maxSize : ℕ) : Bool :=
  -- do not include a sync write into a batch handled by a non-sync write
  (w.sync && !leader.sync) ||
  w.noSlowdown != leader.noSlowdown ||
  w.disableWal != leader.disableWal ||
  w.protectionBytesPerKey != leader.protectionBytesPerKey ||
  w.rateLimiterPriority != leader.rateLimiterPriority ||
  w.batch.isNone ||
  w.callback == some false ||
  -- do not make the batch too big
  decide (maxSize < size + w.batch.getD 0) ||
  (leader.ingestWbwi || w.ingestWbwi)

/-- `WriteGroup`. -/
structure WriteGroup where
  leader : ℕ
  lastWriter : ℕ
  size : ℕ
deriving DecidableEq

/-- The variables of the loop: the writer it is at, the end of the group, the ends of `r_list`, the
bytes and the group. -/
structure Gathering where
  w : ℕ
  we : ℕ
  rb : Option ℕ := none
  re : Option ℕ := none
  size : ℕ
  group : WriteGroup

/-- A writer is removed from the list and inserted into `r_list`. -/
def reject (w : ℕ) (g : Gathering) (s : Links) : Except Fault (Gathering × Links) :=
  match s.linkOlder w with
  | none => .error .nullLink
  | some older =>
    let s := s.setNewer older (s.linkNewer w)
    let s := (s.linkNewer w).elim s fun newer => s.setOlder newer (some older)
    match g.re with
    | none => .ok ({ g with w, rb := some w, re := some w }, s.setOlder w none)
    | some re => .ok ({ g with w, re := some w }, (s.setOlder w (some re)).setNewer re (some w))

/-- A writer joins the group. -/
def grow (w bytes : ℕ) (g : Gathering) : Gathering :=
  { g with
    w
    we := w
    size := g.size + bytes
    group := { g.group with lastWriter := w, size := g.group.size + 1 } }

section Leader

variable (writers : ℕ → Writer)

/-- The loop of `EnterAsBatchGroupLeader`, from old to new. -/
def gather (leader maxSize newest : ℕ) : ℕ → Gathering → World → Except Fault (Gathering × World)
  | 0, _, _ => .error .outOfFuel
  | fuel + 1, g, s =>
    if g.w = newest then .ok (g, s)
    else
      let s := s.arrive
      match s.links.linkNewer g.w with
      | none => .error .nullLink
      | some w =>
        if rejects (writers leader) (writers w) g.size maxSize then
          match reject w g s.links with
          | .error fault => .error fault
          | .ok (g, links) => gather leader maxSize newest fuel g { s with links }
        else
          gather leader maxSize newest fuel (grow w ((writers w).batch.getD 0) g)
            { s with links := s.links.join w }

/-- The writer that is linked to `newest`, from a newer one. -/
def findLinkTo (newest : ℕ) : ℕ → ℕ → Links → Except Fault ℕ
  | 0, _, _ => .error .outOfFuel
  | fuel + 1, w, s =>
    if s.linkOlder w = some newest then .ok w
    else
      match s.linkOlder w with
      | none => .error .nullLink
      | some w => findLinkTo newest fuel w s

/-- `r_list` is linked to the end of the group. -/
def attach (rb re we : ℕ) (s : Links) : Links :=
  ((s.setOlder rb (some we)).setNewer re none).setNewer we (some rb)

/-- `r_list` is put behind the group. The exchange fails when new writers have arrived, and it may
also fail without a reason; other writers may arrive after it. -/
def graft (newest : ℕ) (spurious : Bool) (late : List ℕ) (fuel : ℕ) (g : Gathering) (s : Links) :
    Except Fault Links :=
  match g.rb, g.re with
  | some rb, some re =>
    let s := attach rb re g.we s
    if s.newestWriter = some g.w ∧ spurious = false then
      .ok (late.foldl linkOne { s with newestWriter := some re })
    else
      match s.newestWriter with
      | none => .error .nullLink
      | some w =>
        let s := late.foldl linkOne s
        match findLinkTo newest fuel w s with
        | .error fault => .error fault
        | .ok w => .ok (s.setOlder w (some re))
  | _, _ => .ok (late.foldl linkOne s)

/-- The most bytes of a group. A small write is not slowed down too much. -/
def limit (maxWriteBatchGroupSizeBytes size : ℕ) : ℕ :=
  if size ≤ maxWriteBatchGroupSizeBytes / 8 then size + maxWriteBatchGroupSizeBytes / 8
  else maxWriteBatchGroupSizeBytes

/-- What `EnterAsBatchGroupLeader` returns and leaves behind. -/
structure Entered where
  links : Links
  group : WriteGroup
  size : ℕ

/-- `EnterAsBatchGroupLeader`. -/
def enterAsBatchGroupLeader (maxWriteBatchGroupSizeBytes leader : ℕ) (spurious : Bool)
    (late : List ℕ) (fuel : ℕ) (s : World) : Except Fault Entered :=
  match (writers leader).batch, s.links.newestWriter with
  | some size, some newest =>
    match createMissingNewerLinks fuel newest { s with links := s.links.join leader } with
    | .error fault => .error fault
    | .ok s =>
      match gather writers leader (limit maxWriteBatchGroupSizeBytes size) newest fuel
          { w := leader, we := leader, size, group := ⟨leader, leader, 1⟩ } s with
      | .error fault => .error fault
      | .ok (g, s) =>
        match graft newest spurious late fuel g (s.arrivals.flatten.foldl linkOne s.links) with
        | .error fault => .error fault
        | .ok links => .ok ⟨links, g.group, g.size⟩
  | _, _ => .error .nullLink

end Leader

/-! ## Writers that arrive -/

section Arrivals

variable {s : World} {newest : ℕ}

lemma linkNewer_arrived (batch : List ℕ) (s : Links) :
    (batch.foldl linkOne s).linkNewer = s.linkNewer := by
  induction batch generalizing s with
  | nil => rfl
  | cons w batch ih => exact ih (linkOne s w)

lemma writeGroup_arrived (batch : List ℕ) (s : Links) :
    (batch.foldl linkOne s).writeGroup = s.writeGroup := by
  induction batch generalizing s with
  | nil => rfl
  | cons w batch ih => exact ih (linkOne s w)

lemma linkOlder_arrived {batch : List ℕ} {v : ℕ} (hv : v ∉ batch) (s : Links) :
    (batch.foldl linkOne s).linkOlder v = s.linkOlder v := by
  induction batch generalizing s with
  | nil => rfl
  | cons w batch ih =>
    rw [mem_cons, not_or] at hv
    rw [foldl_cons, ih hv.2]
    exact update_of_ne hv.1 _ _

variable {arrived : List ℕ}

/-- New writers stand before those that were the newest. -/
lemma segment_arrived {batch : List ℕ} {s : Links} {p : Option ℕ}
    (nodup : (arrived ++ batch).Nodup) (h : Segment s.linkOlder s.newestWriter arrived.reverse p) :
    Segment (batch.foldl linkOne s).linkOlder (batch.foldl linkOne s).newestWriter
      (arrived ++ batch).reverse p := by
  induction batch generalizing s arrived with
  | nil => simpa using h
  | cons w batch ih =>
    rw [append_cons] at nodup ⊢
    refine ih nodup ?_
    have hw : w ∉ arrived.reverse := by
      have hdisjoint := (nodup_append.1 (nodup_append.1 nodup).1).2.2
      intro hmem
      exact hdisjoint w (mem_reverse.1 hmem) w (mem_singleton_self w) rfl
    rw [reverse_append]
    refine ⟨rfl, ?_⟩
    have hnext : (linkOne s w).linkOlder w = s.newestWriter := update_self _ _ _
    rw [hnext]
    exact h.update hw _

/-- The writers that have arrived are linked before `newest`; all writers that arrive are
different. -/
structure Arriving (s : World) (newest : ℕ) (arrived : List ℕ) : Prop where
  nodup : (arrived ++ s.arrivals.flatten).Nodup
  links : Segment s.links.linkOlder s.links.newestWriter arrived.reverse (some newest)

lemma flatten_arrivals (arrivals : List (List ℕ)) :
    arrivals.headD [] ++ arrivals.tail.flatten = arrivals.flatten := by
  cases arrivals <;> rfl

lemma Arriving.arrive (h : Arriving s newest arrived) :
    Arriving s.arrive newest (arrived ++ s.arrivals.headD []) := by
  have hnodup := h.nodup
  rw [← flatten_arrivals, ← append_assoc] at hnodup
  exact ⟨hnodup, segment_arrived (nodup_append.1 hnodup).1 h.links⟩

/-- The leader changes no link of a writer that has arrived. -/
lemma Arriving.of_links (h : Arriving s newest arrived) {links : Links}
    (holder : ∀ v ∈ arrived, links.linkOlder v = s.links.linkOlder v)
    (hnewest : links.newestWriter = s.links.newestWriter) :
    Arriving { s with links } newest arrived := by
  refine ⟨h.nodup, ?_⟩
  rw [hnewest]
  exact h.links.congr fun v hv => holder v (mem_reverse.1 hv)

end Arrivals

/-! ## Missing forward links -/

section ForwardLinks

lemma arrive_frame (s : World) (arrived : List ℕ) : (∀ v, v ∉ arrived ++ s.arrivals.flatten →
      s.arrive.links.linkOlder v = s.links.linkOlder v) ∧
    s.arrive.links.linkNewer = s.links.linkNewer ∧
    (arrived ++ s.arrivals.headD []) ++ s.arrive.arrivals.flatten =
      arrived ++ s.arrivals.flatten := by
  refine ⟨fun v hv => ?_, linkNewer_arrived _ _, ?_⟩
  · refine linkOlder_arrived (fun hmem => hv (mem_append_right _ ?_)) _
    rw [← flatten_arrivals]
    exact mem_append_left _ hmem
  · rw [append_assoc, World.arrive, flatten_arrivals]

/-- A chain of links stays when the links of its cells but the first do. -/
lemma isChain_congr {link link' : ℕ → Option ℕ} {v : ℕ} {l : List ℕ}
    (h : (v :: l).IsChain fun a b => link b = some a) (heq : ∀ b ∈ l, link' b = link b) :
    (v :: l).IsChain fun a b => link' b = some a := by
  induction l generalizing v with
  | nil => exact isChain_singleton v
  | cons u l ih =>
    rw [isChain_cons_cons] at h ⊢
    refine ⟨?_, ih h.2 fun b hb => heq b (mem_cons_of_mem u hb)⟩
    rw [heq u mem_cons_self]
    exact h.1

/-- A queue from new to old, whose older part has forward links and whose newer part does not. -/
structure PartlyLinked (s : Links) (newest : ℕ) (rest known : List ℕ) : Prop where
  nodup : (newest :: rest ++ known).Nodup
  older : Segment s.linkOlder (some newest) (newest :: rest ++ known) none
  missing : ∀ v ∈ rest, s.linkNewer v = none
  newer : ((newest :: rest).getLast (List.cons_ne_nil _ _) :: known).IsChain
    fun a b => s.linkNewer b = some a

lemma exists_fuel {n fuel : ℕ} (h : n < fuel) : ∃ m, fuel = m + 1 :=
  ⟨fuel - 1, by omega⟩

/-- All forward links are there afterwards, and nothing else of the queue has changed. -/
lemma createMissingNewerLinks_spec {newest : ℕ} {known : List ℕ} (rest : List ℕ) {head : ℕ}
    {s : World} {arrived : List ℕ} {fuel : ℕ} (hfuel : rest.length < fuel)
    (partly : PartlyLinked s.links head rest known) (arriving : Arriving s newest arrived)
    (hdisjoint : ∀ v ∈ head :: rest ++ known, v ∉ arrived ++ s.arrivals.flatten) :
    ∃ s' arrived', createMissingNewerLinks fuel head s = .ok s' ∧ Arriving s' newest arrived' ∧
      arrived' ++ s'.arrivals.flatten = arrived ++ s.arrivals.flatten ∧
      (∀ v, v ∉ arrived ++ s.arrivals.flatten → s'.links.linkOlder v = s.links.linkOlder v) ∧
      (∀ v, v ∉ rest → s'.links.linkNewer v = s.links.linkNewer v) ∧
      s'.links.writeGroup = s.links.writeGroup ∧
      (head :: rest ++ known).IsChain fun a b => s'.links.linkNewer b = some a := by
  induction rest generalizing head s arrived fuel with
  | nil =>
    obtain ⟨fuel, rfl⟩ := exists_fuel hfuel
    obtain ⟨holder, hnewer, harrivals⟩ := arrive_frame s arrived
    have hok : createMissingNewerLinks (fuel + 1) head s = .ok s.arrive := by
      have hhead := holder head (hdisjoint head (by simp))
      simp only [createMissingNewerLinks]
      cases known with
      | nil =>
        rw [hhead, show s.links.linkOlder head = none from partly.older.2]
      | cons next known =>
        rw [hhead, show s.links.linkOlder head = some next from partly.older.2.1]
        have hnext : s.links.linkNewer next = some head := (isChain_cons_cons.1 partly.newer).1
        simp only
        rw [hnewer, hnext, if_pos (by simp)]
    refine ⟨s.arrive, _, hok, arriving.arrive, harrivals, holder,
      fun v _ => by rw [hnewer], writeGroup_arrived _ _, ?_⟩
    rw [hnewer]
    exact partly.newer
  | cons next rest ih =>
    obtain ⟨fuel, rfl⟩ := exists_fuel hfuel
    obtain ⟨holder, hnewer, harrivals⟩ := arrive_frame s arrived
    have hnext : s.links.linkOlder head = some next := partly.older.2.1
    have hmissing := partly.missing next mem_cons_self
    have hnodup := (nodup_cons.1 partly.nodup).2
    have hnotMem := (nodup_cons.1 hnodup).1
    let s₂ : World := { s.arrive with links := s.arrive.links.setNewer next (some head) }
    have hsubset : ∀ v ∈ next :: rest ++ known, v ∈ head :: (next :: rest) ++ known :=
      fun v hv => mem_cons_of_mem head hv
    have hstep : createMissingNewerLinks (fuel + 1) head s =
        createMissingNewerLinks fuel next s₂ := by
      simp only [createMissingNewerLinks, holder head (hdisjoint head (by simp)), hnext, hnewer,
        hmissing, ne_eq, not_true_eq_false, if_false]
      rfl
    have hnewer₂ : ∀ v, v ≠ next → s₂.links.linkNewer v = s.links.linkNewer v := by
      intro v hv
      rw [← hnewer]
      exact update_of_ne hv _ _
    have partly₂ : PartlyLinked s₂.links next rest known := by
      have older := hnext ▸ partly.older.2
      refine ⟨hnodup, older.congr fun v hv => holder v (hdisjoint v (hsubset v hv)), fun v hv => ?_,
        isChain_congr partly.newer fun v hv => hnewer₂ v ?_⟩
      · have hne : v ≠ next := fun heq => hnotMem (heq ▸ mem_append_left _ hv)
        rw [hnewer₂ v hne]
        exact partly.missing v (mem_cons_of_mem next hv)
      · exact fun heq => hnotMem (heq ▸ mem_append_right _ hv)
    have arriving₂ : Arriving s₂ newest (arrived ++ s.arrivals.headD []) :=
      arriving.arrive.of_links (fun _ _ => rfl) rfl
    have hdisjoint₂ : ∀ v ∈ next :: rest ++ known,
        v ∉ (arrived ++ s.arrivals.headD []) ++ s₂.arrivals.flatten := by
      intro v hv
      rw [show s₂.arrivals = s.arrive.arrivals from rfl, harrivals]
      exact hdisjoint v (hsubset v hv)
    obtain ⟨s', arrived', hok, harriving', harrived', holder', hnewer', hgroup', hchain'⟩ :=
      ih (by simpa using hfuel) partly₂ arriving₂ hdisjoint₂
    refine ⟨s', arrived', hstep.trans hok, harriving', harrived'.trans harrivals, fun v hv => ?_,
      fun v hv => ?_, hgroup'.trans (writeGroup_arrived _ _), ?_⟩
    · rw [← harrivals] at hv
      exact (holder' v hv).trans (holder v (harrivals ▸ hv))
    · rw [mem_cons, not_or] at hv
      rw [hnewer' v hv.2, hnewer₂ v hv.1]
    · refine isChain_cons_cons.2 ⟨?_, hchain'⟩
      rw [hnewer' next fun hmem => hnotMem (mem_append_left _ hmem)]
      exact update_self _ _ _

end ForwardLinks

/-! ## The group and `r_list` -/

section Gather

variable {s : Links} {g : Gathering} {group rejected todo : List ℕ}

/-- The queue during the loop: the group and `r_list` from new to old, and what is left from old to
new. -/
structure Split (s : Links) (g : Gathering) (group rejected todo : List ℕ) : Prop where
  nodup : (todo ++ (rejected ++ group)).Nodup
  group_links : Segment s.linkOlder (some g.we) group none
  rejected_links : Segment s.linkOlder g.re rejected none
  rejected_last : rejected.getLast? = g.rb
  todo_older : (g.we :: todo).IsChain fun a b => s.linkOlder b = some a
  todo_newer : Segment s.linkNewer (s.linkNewer g.w) todo none
  at_end : g.w = g.we ∨ g.re = some g.w
  joined : ∀ v ∈ group, s.writeGroup v = true
  apart : ∀ v ∈ todo ++ rejected, s.writeGroup v = false

section

variable (h : Split s g group rejected todo)

include h

/-- Only the links of the queue matter. -/
lemma Split.congr {s' : Links}
    (holder : ∀ v ∈ todo ++ (rejected ++ group), s'.linkOlder v = s.linkOlder v)
    (hnewer : s'.linkNewer = s.linkNewer) (hgroup : s'.writeGroup = s.writeGroup) :
    Split s' g group rejected todo where
  nodup := h.nodup
  group_links := h.group_links.congr fun v hv => holder v (by simp [hv])
  rejected_links := h.rejected_links.congr fun v hv => holder v (by simp [hv])
  rejected_last := h.rejected_last
  todo_older := isChain_congr h.todo_older fun v hv => holder v (by simp [hv])
  todo_newer := by
    rw [hnewer]
    exact h.todo_newer
  at_end := h.at_end
  joined := fun v hv => by rw [hgroup]; exact h.joined v hv
  apart := fun v hv => by rw [hgroup]; exact h.apart v hv

lemma Split.we_mem : g.we ∈ group := by
  have hlinks := h.group_links
  cases group with
  | nil => cases hlinks
  | cons v group =>
    cases hlinks.1
    exact mem_cons_self

lemma Split.re_mem {re : ℕ} (hre : g.re = some re) : re ∈ rejected := by
  have hlinks := h.rejected_links
  rw [hre] at hlinks
  cases rejected with
  | nil => cases hlinks
  | cons v rejected =>
    cases hlinks.1
    exact mem_cons_self

lemma Split.at_mem : g.w ∈ rejected ++ group := by
  rcases h.at_end with hw | hw
  · rw [hw]
    exact mem_append_right _ h.we_mem
  · exact mem_append_left _ (h.re_mem hw)

end

variable {w : ℕ}

lemma Split.grow (h : Split s g group rejected (w :: todo)) (bytes : ℕ) :
    Split (s.join w) (grow w bytes g) (w :: group) rejected todo where
  nodup := by
    have hperm : (todo ++ (rejected ++ w :: group)).Perm (w :: todo ++ (rejected ++ group)) := by
      rw [← append_assoc, ← append_assoc]
      exact perm_middle.trans (by simp)
    exact hperm.nodup_iff.2 h.nodup
  group_links := by
    refine ⟨rfl, ?_⟩
    rw [show (s.join w).linkOlder w = some g.we from (isChain_cons_cons.1 h.todo_older).1]
    exact h.group_links
  rejected_links := h.rejected_links
  rejected_last := h.rejected_last
  todo_older := (isChain_cons_cons.1 h.todo_older).2
  todo_newer := h.todo_newer.2
  at_end := .inl rfl
  joined := by
    intro v hv
    rcases mem_cons.1 hv with rfl | hv
    · exact update_self _ _ _
    · by_cases hw : v = w
      · rw [hw]
        exact update_self _ _ _
      · exact (update_of_ne hw _ _).trans (h.joined v hv)
  apart := by
    intro v hv
    have hne : v ≠ w := by
      rintro rfl
      have hnotMem := (nodup_cons.1 h.nodup).1
      rcases mem_append.1 hv with hv | hv <;> exact hnotMem (by simp [hv])
    exact (update_of_ne hne _ _).trans (h.apart v (mem_cons_of_mem w hv))

lemma reject_links {older : ℕ} (holder : s.linkOlder w = some older) (hne : w ≠ older) :
    ∃ g' s', reject w g s = .ok (g', s') ∧ (∀ v, s'.linkOlder v = if v = w then g.re else
        if s.linkNewer w = some v then some older else s.linkOlder v) ∧
      (∀ v, v ≠ older → g.re ≠ some v → s'.linkNewer v = s.linkNewer v) ∧
      s'.writeGroup = s.writeGroup ∧ s'.newestWriter = s.newestWriter ∧
      g' = { g with w, re := some w, rb := if g.re = none then some w else g.rb } := by
  have hnewer : (s.setNewer older (s.linkNewer w)).linkNewer w = s.linkNewer w :=
    update_of_ne hne _ _
  have hunlink : ∀ v, ((s.linkNewer w).elim (s.setNewer older (s.linkNewer w)) fun newer =>
      (s.setNewer older (s.linkNewer w)).setOlder newer (some older)).linkOlder v =
      if s.linkNewer w = some v then some older else s.linkOlder v := by
    intro v
    cases hw : s.linkNewer w with
    | none => rfl
    | some newer =>
      simp only [elim_some, Links.setOlder, update_apply, some.injEq, eq_comm]
      rfl
  have hrest : ∀ {links : Links},
      links = (s.linkNewer w).elim (s.setNewer older (s.linkNewer w)) (fun newer =>
        (s.setNewer older (s.linkNewer w)).setOlder newer (some older)) →
      links.linkNewer = update s.linkNewer older (s.linkNewer w) ∧
      links.writeGroup = s.writeGroup ∧ links.newestWriter = s.newestWriter := by
    rintro links rfl
    cases s.linkNewer w <;> exact ⟨rfl, rfl, rfl⟩
  simp only [reject, holder, hnewer]
  generalize hlinks : (s.linkNewer w).elim (s.setNewer older (s.linkNewer w)) (fun newer =>
    (s.setNewer older (s.linkNewer w)).setOlder newer (some older)) = links at hunlink
  obtain ⟨hlinkNewer, hgroup, hnewest⟩ := hrest hlinks.symm
  cases hre : g.re with
  | none =>
    refine ⟨_, _, rfl, fun v => ?_, fun v hv _ => ?_, hgroup, hnewest, rfl⟩
    · rw [← hunlink v]
      exact update_apply _ _ _ _
    · exact (congrFun hlinkNewer v).trans (update_of_ne hv _ _)
  | some re =>
    refine ⟨_, _, rfl, fun v => ?_, fun v hv hv' => ?_, hgroup, hnewest, rfl⟩
    · rw [← hunlink v]
      exact update_apply _ _ _ _
    · have hvre : v ≠ re := fun heq => hv' (by rw [heq])
      refine (update_of_ne hvre _ _).trans ?_
      exact (congrFun hlinkNewer v).trans (update_of_ne hv _ _)

lemma Split.reject (h : Split s g group rejected (w :: todo)) :
    ∃ g' s', reject w g s = .ok (g', s') ∧ Split s' g' group (w :: rejected) todo ∧
      (∀ v, v ∉ w :: todo → s'.linkOlder v = s.linkOlder v) ∧ s'.newestWriter = s.newestWriter ∧
      g'.w = w ∧ g'.we = g.we ∧ g'.size = g.size ∧ g'.group = g.group := by
  obtain ⟨hnotMem, hnodup⟩ := nodup_cons.1 h.nodup
  have hne : w ≠ g.we := fun heq => hnotMem (by simp [heq, h.we_mem])
  obtain ⟨hw, htodo⟩ := isChain_cons_cons.1 h.todo_older
  have hhead : s.linkNewer w = todo.head? := h.todo_newer.2.head
  obtain ⟨g', s', hok, holder, hnewer, hgroup, hnewest, rfl⟩ := reject_links (g := g) hw hne
  have hkept : ∀ v, v ∉ w :: todo → s'.linkOlder v = s.linkOlder v := by
    intro v hv
    rw [mem_cons, not_or] at hv
    have hhead' : todo.head? ≠ some v := fun heq => hv.2 (mem_of_mem_head? heq)
    rw [holder v, if_neg hv.1, hhead, if_neg hhead']
  have hdisjoint : ∀ v ∈ rejected ++ group, v ∉ w :: todo := by
    intro v hv hmem
    rcases mem_cons.1 hmem with rfl | hmem
    · exact hnotMem (mem_append_right _ hv)
    · exact (nodup_append.1 hnodup).2.2 v hmem v hv rfl
  have hnewer' : ∀ v ∈ w :: todo, s'.linkNewer v = s.linkNewer v := by
    intro v hv
    refine hnewer v ?_ fun hre => ?_
    · rintro rfl
      exact hdisjoint g.we (by simp [h.we_mem]) hv
    · exact hdisjoint v (by simp [h.re_mem hre]) hv
  refine ⟨_, s', hok, ?_, hkept, hnewest, rfl, rfl, rfl, rfl⟩
  refine
    { nodup := ?_, group_links := ?_, rejected_links := ?_, rejected_last := ?_, todo_older := ?_,
      todo_newer := ?_, at_end := .inr rfl, joined := ?_, apart := ?_ }
  · exact perm_middle.nodup_iff.2 h.nodup
  · exact h.group_links.congr fun v hv => hkept v (hdisjoint v (by simp [hv]))
  · refine ⟨rfl, ?_⟩
    rw [holder w, if_pos rfl]
    exact h.rejected_links.congr fun v hv => hkept v (hdisjoint v (by simp [hv]))
  · have hlinks := h.rejected_links.head
    cases rejected with
    | nil =>
      rw [show g.re = none from hlinks]
      rfl
    | cons v rejected =>
      rw [show g.re = some v from hlinks, if_neg (by simp), ← h.rejected_last]
      rfl
  · cases todo with
    | nil => exact isChain_singleton _
    | cons t todo =>
      obtain ⟨ht, htodo⟩ := isChain_cons_cons.1 htodo
      have hnodup' := nodup_cons.1 hnodup
      have hwt : w ≠ t := fun heq => hnotMem (by simp [heq])
      refine isChain_cons_cons.2 ⟨?_, isChain_congr htodo fun v hv => ?_⟩
      · rw [holder t, if_neg (Ne.symm hwt), hhead, head?_cons, if_pos rfl]
      · have hvw : v ≠ w := fun heq => hnotMem (by simp [← heq, hv])
        have hvt : t ≠ v := fun heq => hnodup'.1 (by simp [heq, hv])
        rw [holder v, if_neg hvw, hhead, head?_cons, if_neg (by simpa using hvt)]
  · rw [hnewer' w mem_cons_self]
    exact h.todo_newer.2.congr fun v hv => hnewer' v (mem_cons_of_mem w hv)
  · rw [hgroup]
    exact h.joined
  · rw [hgroup]
    intro v hv
    refine h.apart v ?_
    simp only [mem_append, mem_cons] at hv ⊢
    tauto

end Gather

/-! ## Who joins the group -/

section Select

variable (writers : ℕ → Writer) (leader maxSize : ℕ)

/-- The bytes of some writers. -/
def bytes (l : List ℕ) : ℕ := (l.map fun w => (writers w).batch.getD 0).sum

@[simp] lemma bytes_cons (w : ℕ) (l : List ℕ) :
    bytes writers (w :: l) = (writers w).batch.getD 0 + bytes writers l := by
  rw [bytes, map_cons, sum_cons, bytes]

/-- The writers that join the group and those that do not, from old to new. -/
def select : ℕ → List ℕ → List ℕ × List ℕ
  | _, [] => ([], [])
  | size, w :: l =>
    if rejects (writers leader) (writers w) size maxSize then
      ((select size l).1, w :: (select size l).2)
    else
      (w :: (select (size + (writers w).batch.getD 0) l).1,
        (select (size + (writers w).batch.getD 0) l).2)

/-- A writer can be in the group of a leader. -/
structure Compatible (leader w : Writer) : Prop where
  sync : w.sync = true → leader.sync = true
  noSlowdown : w.noSlowdown = leader.noSlowdown
  disableWal : w.disableWal = leader.disableWal
  protectionBytesPerKey : w.protectionBytesPerKey = leader.protectionBytesPerKey
  rateLimiterPriority : w.rateLimiterPriority = leader.rateLimiterPriority
  batch : w.batch ≠ none
  callback : w.callback ≠ some false
  ingestWbwi : leader.ingestWbwi = false ∧ w.ingestWbwi = false

variable {size : ℕ}

lemma rejects_eq_false_iff {leader w : Writer} {maxSize : ℕ} :
    rejects leader w size maxSize = false ↔
      Compatible leader w ∧ size + w.batch.getD 0 ≤ maxSize := by
  constructor
  · intro h
    simp only [rejects, Bool.or_eq_false_iff, Bool.and_eq_false_iff, Bool.not_eq_false',
      bne_eq_false_iff_eq, isNone_eq_false_iff, beq_eq_false_iff_ne, decide_eq_false_iff_not,
      not_lt] at h
    obtain ⟨⟨⟨⟨⟨⟨⟨⟨hsync, hslow⟩, hwal⟩, hprotection⟩, hpriority⟩, hbatch⟩, hcallback⟩, hsize⟩,
      hingest⟩ := h
    refine ⟨⟨fun hw => ?_, hslow, hwal, hprotection, hpriority, ?_, hcallback, hingest⟩, hsize⟩
    · rcases hsync with hsync | hsync
      · rw [hw] at hsync
        cases hsync
      · exact hsync
    · exact isSome_iff_ne_none.1 hbatch
  · rintro ⟨h, hsize⟩
    have hsync : (w.sync && !leader.sync) = false := by
      cases hw : w.sync with
      | false => rfl
      | true => simp [h.sync hw]
    have hbatch : w.batch.isNone = false := by
      rw [isNone_eq_false_iff]
      exact isSome_iff_ne_none.2 h.batch
    simp [rejects, hsync, hbatch, h.noSlowdown, h.disableWal, h.protectionBytesPerKey,
      h.rateLimiterPriority, h.callback, h.ingestWbwi, hsize]

lemma select_sublist (size : ℕ) (l : List ℕ) : (select writers leader maxSize size l).1.Sublist l ∧
      (select writers leader maxSize size l).2.Sublist l := by
  induction l generalizing size with
  | nil => exact ⟨Sublist.refl _, Sublist.refl _⟩
  | cons w l ih =>
    rw [select]
    split_ifs
    · exact ⟨(ih size).1.cons w, (ih size).2.cons_cons w⟩
    · exact ⟨(ih _).1.cons_cons w, (ih _).2.cons w⟩

lemma select_perm (size : ℕ) (l : List ℕ) :
    ((select writers leader maxSize size l).1 ++ (select writers leader maxSize size l).2).Perm
      l := by
  induction l generalizing size with
  | nil => exact Perm.refl _
  | cons w l ih =>
    rw [select]
    split_ifs
    · exact perm_middle.trans ((ih size).cons w)
    · exact (ih _).cons w

/-- The members of a group and those kept out of it are writers of the queue. -/
lemma mem_of_select (size : ℕ) (l : List ℕ) {v : ℕ} (hv : v ∈
      (select writers leader maxSize size l).2.reverse ++
        ((select writers leader maxSize size l).1.reverse ++ [leader])) : v ∈ leader :: l := by
  have hsublist := select_sublist writers leader maxSize size l
  simp only [mem_append, mem_reverse, mem_singleton] at hv
  rcases hv with hv | hv | hv
  · exact mem_cons_of_mem leader (hsublist.2.subset hv)
  · exact mem_cons_of_mem leader (hsublist.1.subset hv)
  · exact hv ▸ mem_cons_self

lemma compatible_of_select {w : ℕ} {l : List ℕ} (h : w ∈ (select writers leader maxSize size l).1)
    : Compatible (writers leader) (writers w) := by
  induction l generalizing size with
  | nil => cases h
  | cons v l ih =>
    rw [select] at h
    split_ifs at h with hrejects
    · exact ih h
    · rcases mem_cons.1 h with rfl | h
      · exact (rejects_eq_false_iff.1 (Bool.eq_false_iff.2 hrejects)).1
      · exact ih h

lemma bytes_select_le (hsize : size ≤ maxSize) (l : List ℕ) :
    size + bytes writers (select writers leader maxSize size l).1 ≤ maxSize := by
  induction l generalizing size with
  | nil => exact hsize
  | cons w l ih =>
    rw [select]
    split_ifs with hrejects
    · exact ih hsize
    · rw [bytes_cons, ← add_assoc]
      exact ih (rejects_eq_false_iff.1 (Bool.eq_false_iff.2 hrejects)).2

/-- Nobody is kept out if and only if all are compatible and there is room for all. -/
lemma select_all_iff (hsize : size ≤ maxSize) (l : List ℕ) :
    (select writers leader maxSize size l).2 = [] ↔
      (∀ w ∈ l, Compatible (writers leader) (writers w)) ∧ size + bytes writers l ≤ maxSize := by
  induction l generalizing size with
  | nil => simpa [select, bytes] using hsize
  | cons w l ih =>
    rw [select]
    split_ifs with hrejects
    · refine iff_of_false (by simp) ?_
      rintro ⟨hcompatible, hroom⟩
      rw [bytes_cons] at hroom
      have hfalse := rejects_eq_false_iff.2
        ⟨hcompatible w mem_cons_self, show size + (writers w).batch.getD 0 ≤ maxSize by omega⟩
      rw [hrejects] at hfalse
      cases hfalse
    · obtain ⟨hcompatible, hroom⟩ := rejects_eq_false_iff.1 (Bool.eq_false_iff.2 hrejects)
      rw [ih hroom, forall_mem_cons, bytes_cons, add_assoc]
      tauto

end Select

/-! ## The whole call -/

section Run

variable {writers : ℕ → Writer} {leader maxSize newest : ℕ}

variable {fuel : ℕ}

lemma gather_spec (writers : ℕ → Writer) (leader maxSize : ℕ) (todo : List ℕ) {g : Gathering}
    {s : World} {arrived group rejected : List ℕ} (hfuel : todo.length < fuel)
    (split : Split s.links g group rejected todo) (arriving : Arriving s newest arrived)
    (hlast : (g.w :: todo).getLast (List.cons_ne_nil _ _) = newest)
    (hgroup : g.group.lastWriter = g.we)
    (hdisjoint : ∀ v ∈ todo ++ (rejected ++ group), v ∉ arrived ++ s.arrivals.flatten) :
    ∃ g' s' arrived', gather writers leader maxSize newest fuel g s = .ok (g', s') ∧
      Split s'.links g' ((select writers leader maxSize g.size todo).1.reverse ++ group)
        ((select writers leader maxSize g.size todo).2.reverse ++ rejected) [] ∧
      Arriving s' newest arrived' ∧
      arrived' ++ s'.arrivals.flatten = arrived ++ s.arrivals.flatten ∧ g'.w = newest ∧
      g'.size = g.size + bytes writers (select writers leader maxSize g.size todo).1 ∧
      g'.group = ⟨g.group.leader, g'.we,
        g.group.size + (select writers leader maxSize g.size todo).1.length⟩ := by
  induction todo generalizing fuel g s arrived group rejected with
  | nil =>
    obtain ⟨fuel, rfl⟩ := exists_fuel hfuel
    have hw : g.w = newest := hlast
    refine ⟨g, s, arrived, ?_, split, arriving, rfl, hw, rfl, ?_⟩
    · rw [gather, if_pos hw]
    · rw [← hgroup]
      rfl
  | cons w todo ih =>
    obtain ⟨fuel, rfl⟩ := exists_fuel hfuel
    have hne : g.w ≠ newest := by
      intro heq
      have hmem : newest ∈ w :: todo := by
        rw [← hlast, getLast_cons (cons_ne_nil _ _)]
        exact getLast_mem _
      exact (nodup_append.1 split.nodup).2.2 newest hmem g.w split.at_mem heq.symm
    obtain ⟨holder, hnewer, harrivals⟩ := arrive_frame s arrived
    have split' : Split s.arrive.links g group rejected (w :: todo) :=
      split.congr (fun v hv => holder v (hdisjoint v hv)) hnewer (writeGroup_arrived _ _)
    have hnext : s.arrive.links.linkNewer g.w = some w := split'.todo_newer.1
    by_cases hrejects : rejects (writers leader) (writers w) g.size maxSize = true
    · obtain ⟨g', links, hok, split₂, hkept, hnewest, hw, hwe, hsize, hgroup'⟩ := split'.reject
      have arriving₂ : Arriving { s.arrive with links } newest
          (arrived ++ s.arrivals.headD []) := by
        refine arriving.arrive.of_links (fun v hv => hkept v fun hmem => ?_) hnewest
        refine hdisjoint v (mem_append_left _ hmem) ?_
        rw [← harrivals]
        exact mem_append_left _ hv
      obtain ⟨g'', s', arrived', hok', hsplit', harriving', harrived', hw', hsize', hgroup''⟩ :=
        ih (by simpa using hfuel) split₂ arriving₂ (by rw [hw, ← hlast]; rfl)
          (by rw [hgroup', hwe]; exact hgroup) fun v hv => by
            refine fun hmem => hdisjoint v ?_ (harrivals ▸ hmem)
            simp only [mem_append, mem_cons] at hv ⊢
            tauto
      refine ⟨g'', s', arrived', ?_, ?_, harriving', harrived'.trans harrivals, hw', ?_, ?_⟩
      · rw [gather, if_neg hne]
        simp only [hnext, hrejects, if_true, hok]
        exact hok'
      · rw [hsize] at hsplit'
        rw [select, if_pos hrejects]
        simpa only [reverse_cons, append_assoc, singleton_append] using hsplit'
      · rw [hsize', hsize, select, if_pos hrejects]
      · rw [hgroup'', hsize, hgroup', select, if_pos hrejects]
    · have arriving₂ : Arriving { s.arrive with links := s.arrive.links.join w } newest
          (arrived ++ s.arrivals.headD []) :=
        arriving.arrive.of_links (fun _ _ => rfl) rfl
      obtain ⟨g'', s', arrived', hok', hsplit', harriving', harrived', hw', hsize', hgroup''⟩ :=
        ih (by simpa using hfuel) (split'.grow ((writers w).batch.getD 0)) arriving₂ hlast rfl
          fun v hv => by
            refine fun hmem => hdisjoint v ?_ (harrivals ▸ hmem)
            simp only [mem_append, mem_cons] at hv ⊢
            tauto
      refine ⟨g'', s', arrived', ?_, ?_, harriving', harrived'.trans harrivals, hw', ?_, ?_⟩
      · rw [gather, if_neg hne]
        simp only [hnext, hrejects]
        exact hok'
      · rw [select, if_neg hrejects]
        simp only [reverse_cons, append_assoc, singleton_append]
        exact hsplit'
      · rw [hsize', select, if_neg hrejects, bytes_cons, ← add_assoc]
        rfl
      · rw [hgroup'', select, if_neg hrejects]
        simp only [grow, length_cons]
        congr 1
        omega

/-- The oldest of the writers that have arrived is found. -/
lemma findLinkTo_arrived {s : Links} {l : List ℕ} {v w : ℕ}
    (h : Segment s.linkOlder (some w) (l ++ [v]) (some newest)) (hnewest : newest ∉ l ++ [v])
    (hfuel : l.length < fuel) : findLinkTo newest fuel w s = .ok v := by
  induction l generalizing w fuel with
  | nil =>
    obtain ⟨fuel, rfl⟩ := exists_fuel hfuel
    obtain rfl : w = v := some.inj h.1
    have hnewest : s.linkOlder w = some newest := h.2
    rw [findLinkTo, if_pos hnewest]
  | cons u l ih =>
    obtain ⟨fuel, rfl⟩ := exists_fuel hfuel
    obtain rfl : w = u := some.inj h.1
    have hrest := h.2
    obtain ⟨next, hnext⟩ : ∃ next, s.linkOlder w = some next ∧ next ∈ l ++ [v] := by
      cases l with
      | nil => exact ⟨v, hrest.1, by simp⟩
      | cons x l => exact ⟨x, hrest.1, by simp⟩
    have hne : s.linkOlder w ≠ some newest := by
      rw [hnext.1]
      rintro ⟨rfl⟩
      exact hnewest (mem_cons_of_mem w hnext.2)
    rw [findLinkTo, if_neg hne, hnext.1]
    refine ih (hnext.1 ▸ hrest) (fun hmem => hnewest (mem_cons_of_mem w hmem)) ?_
    simpa using hfuel

/-- Without a writer that is linked to `newest` the end of the list is passed. -/
lemma findLinkTo_null {s : Links} {l : List ℕ} {w : ℕ}
    (h : Segment s.linkOlder (some w) (w :: l) none) (hnewest : newest ∉ l)
    (hfuel : l.length < fuel) : findLinkTo newest fuel w s = .error .nullLink := by
  induction l generalizing w fuel with
  | nil =>
    obtain ⟨fuel, rfl⟩ := exists_fuel hfuel
    have hnone : s.linkOlder w = none := h.2
    rw [findLinkTo, hnone, if_neg (by simp)]
  | cons u l ih =>
    obtain ⟨fuel, rfl⟩ := exists_fuel hfuel
    have hnext : s.linkOlder w = some u := h.2.1
    have hne : u ≠ newest := fun heq => hnewest (by simp [heq])
    rw [findLinkTo, hnext, if_neg (by simpa using hne)]
    refine ih (hnext ▸ h.2) (fun hmem => hnewest (mem_cons_of_mem u hmem)) ?_
    simpa using hfuel

section Graft

variable {s : Links} {g : Gathering} {group rejected arrived late : List ℕ} {spurious : Bool}
  {fuel : ℕ}

section

variable (h : Split s g group rejected [])

include h

lemma Split.append {rb : ℕ} (hrb : g.rb = some rb) :
    Segment (Function.update s.linkOlder rb (some g.we)) g.re (rejected ++ group) none := by
  obtain ⟨front, rfl⟩ : ∃ front, rejected = front ++ [rb] := by
    rw [← getLast?_eq_some_iff, h.rejected_last, hrb]
  have hnodup : (front ++ [rb] ++ group).Nodup := h.nodup
  have hnodup := nodup_append.1 hnodup
  refine segment_append.2 ⟨some g.we, h.rejected_links.retarget ?_ _, h.group_links.update ?_ _⟩
  · intro hmem
    exact (nodup_append.1 hnodup.1).2.2 rb hmem rb (mem_singleton_self rb) rfl
  · intro hmem
    exact hnodup.2.2 rb (by simp) rb hmem rfl

lemma Split.rejected_eq_nil_iff :
    (rejected = [] ↔ g.rb = none) ∧ (rejected = [] ↔ g.re = none) := by
  constructor
  · rw [← h.rejected_last, getLast?_eq_none_iff]
  · rw [h.rejected_links.head, head?_eq_none_iff]

/-- The list after `r_list` has been put behind the group. -/
lemma graft_spec (hw : g.w = newest)
    (harrived : Segment s.linkOlder s.newestWriter arrived.reverse (some newest))
    (nodup : (arrived ++ late).Nodup) (hdisjoint : ∀ v ∈ rejected ++ group, v ∉ arrived ++ late)
    (hexchange : spurious = true → arrived = [] → rejected = []) (hfuel : arrived.length < fuel) :
    ∃ s', graft newest spurious late fuel g s = .ok s' ∧
      Segment s'.linkOlder s'.newestWriter ((arrived ++ late).reverse ++ (rejected ++ group))
        none ∧ s'.writeGroup = s.writeGroup := by
  have hkept : ∀ (links : Links), ∀ v ∈ rejected ++ group,
      (late.foldl linkOne links).linkOlder v = links.linkOlder v := fun links v hv =>
    linkOlder_arrived (fun hmem => hdisjoint v hv (mem_append_right _ hmem)) links
  by_cases hnil : rejected = []
  · -- nobody was kept out: the list is as it was
    have hrb := h.rejected_eq_nil_iff.1.1 hnil
    have hwe : g.w = g.we := by
      rcases h.at_end with hwe | hre
      · exact hwe
      · rw [h.rejected_eq_nil_iff.2.1 hnil] at hre
        cases hre
    refine ⟨late.foldl linkOne s, ?_, ?_, writeGroup_arrived _ _⟩
    · rw [graft, hrb]
    · subst hnil
      refine segment_append.2 ⟨some newest, segment_arrived nodup harrived, ?_⟩
      rw [← hw, hwe]
      exact h.group_links.congr (hkept s)
  obtain ⟨rb, hrb⟩ := ne_none_iff_exists'.1 fun hrb => hnil (h.rejected_eq_nil_iff.1.2 hrb)
  obtain ⟨re, hre⟩ := ne_none_iff_exists'.1 fun hre => hnil (h.rejected_eq_nil_iff.2.2 hre)
  have hrbmem : rb ∈ rejected := by
    refine mem_of_mem_getLast? ?_
    rw [h.rejected_last, hrb]
    exact rfl
  have happend := hre ▸ h.append hrb
  have hw_mem := h.at_mem
  have harrived₁ : Segment (attach rb re g.we s).linkOlder (attach rb re g.we s).newestWriter
      arrived.reverse (some newest) := by
    refine harrived.update (fun hmem => ?_) _
    exact hdisjoint rb (mem_append_left _ hrbmem)
      (mem_append_left _ (mem_reverse.1 hmem))
  cases arrived with
  | nil =>
    -- the exchange succeeds
    have hspurious : spurious = false := by
      cases spurious with
      | false => rfl
      | true => exact absurd (hexchange rfl rfl) hnil
    have hnewest : (attach rb re g.we s).newestWriter = some g.w := by
      rw [hw]
      exact harrived₁
    refine ⟨late.foldl linkOne { attach rb re g.we s with newestWriter := some re }, ?_, ?_,
      writeGroup_arrived _ _⟩
    · simp only [graft, hrb, hre]
      rw [if_pos ⟨hnewest, hspurious⟩]
    · refine segment_append.2 ⟨some re, segment_arrived nodup rfl, ?_⟩
      exact happend.congr (hkept _)
  | cons first arrived =>
    -- other writers have arrived: the oldest of them is linked to the rejected ones
    let s₂ := late.foldl linkOne (attach rb re g.we s)
    rw [reverse_cons] at harrived₁
    obtain ⟨n, hn, hnmem⟩ : ∃ n, (attach rb re g.we s).newestWriter = some n ∧
        n ∈ arrived.reverse ++ [first] := by
      cases hreverse : arrived.reverse ++ [first] with
      | nil => simp at hreverse
      | cons n rest =>
        rw [hreverse] at harrived₁
        exact ⟨n, harrived₁.1, by simp⟩
    have hmem : ∀ v, v ∈ arrived.reverse ++ [first] → v ∈ first :: arrived := by
      intro v hv
      rw [← reverse_cons] at hv
      exact mem_reverse.1 hv
    have hne : ¬ ((attach rb re g.we s).newestWriter = some g.w ∧ spurious = false) := by
      rintro ⟨heq, -⟩
      rw [hn] at heq
      cases heq
      exact hdisjoint g.w hw_mem (mem_append_left _ (hmem _ hnmem))
    have hsegment : Segment s₂.linkOlder (some n) (arrived.reverse ++ [first]) (some newest) := by
      rw [hn] at harrived₁
      refine harrived₁.congr fun v hv => linkOlder_arrived (fun hlate => ?_) _
      exact (nodup_append.1 nodup).2.2 v (hmem v hv) v hlate rfl
    have hfind : findLinkTo newest fuel n s₂ = .ok first := by
      refine findLinkTo_arrived hsegment (fun hnew => ?_) ?_
      · rw [← hw] at hnew
        exact hdisjoint g.w hw_mem (mem_append_left _ (hmem _ hnew))
      · rw [length_reverse]
        rw [length_cons] at hfuel
        omega
    refine ⟨s₂.setOlder first (some re), ?_, ?_, writeGroup_arrived _ _⟩
    · simp only [graft, hrb, hre]
      rw [if_neg hne, hn]
      simp only [s₂] at hfind ⊢
      rw [hfind]
    · rw [← reverse_cons] at harrived₁
      have hall := segment_arrived nodup harrived₁
      have hreverse : (first :: arrived ++ late).reverse =
          (late.reverse ++ arrived.reverse) ++ [first] := by simp
      have hfirst : first ∉ late.reverse ++ arrived.reverse := by
        have hnotMem := (nodup_cons.1 nodup).1
        intro hmem
        refine hnotMem (mem_append.2 ?_)
        simpa [or_comm] using hmem
      rw [hreverse] at hall ⊢
      refine segment_append.2 ⟨some re, hall.retarget hfirst _, ?_⟩
      refine (happend.congr (hkept (attach rb re g.we s))).update (fun hmem' => ?_) _
      exact hdisjoint first hmem' (by simp)

/-- An exchange that fails although no writer has arrived makes the leader follow a null link. -/
lemma graft_null (hw : g.w = newest)
    (hnewest : s.newestWriter = some newest) (hrejected : rejected ≠ [])
    (hdisjoint : ∀ v ∈ rejected ++ group, v ∉ late) (hfuel : (rejected ++ group).length ≤ fuel) :
    graft newest true late fuel g s = .error .nullLink := by
  obtain ⟨rb, hrb⟩ :=
    ne_none_iff_exists'.1 fun hrb => hrejected (h.rejected_eq_nil_iff.1.2 hrb)
  obtain ⟨re, hre⟩ :=
    ne_none_iff_exists'.1 fun hre => hrejected (h.rejected_eq_nil_iff.2.2 hre)
  have happend : Segment (late.foldl linkOne (attach rb re g.we s)).linkOlder (some re)
      (rejected ++ group) none :=
    (hre ▸ h.append hrb).congr fun v hv => linkOlder_arrived (hdisjoint v hv) _
  obtain ⟨front, rest, heq⟩ := append_of_mem h.at_mem
  rw [heq] at happend hfuel
  have hnodup : (front ++ g.w :: rest).Nodup := heq ▸ h.nodup
  obtain ⟨m, -, hm, hrest⟩ := segment_append.1 happend
  have hnull : findLinkTo newest fuel newest (late.foldl linkOne (attach rb re g.we s)) =
      .error .nullLink := by
    refine findLinkTo_null (l := rest) ⟨rfl, hw ▸ hrest⟩ ?_ ?_
    · rw [← hw]
      exact (nodup_cons.1 (nodup_append.1 hnodup).2.1).1
    · simp only [length_append, length_cons] at hfuel
      omega
  have hnewest' : (attach rb re g.we s).newestWriter = some newest := hnewest
  simp only [graft, hrb, hre]
  rw [if_neg (by simp), hnewest']
  simp only [hnull]

end

end Graft

/-! ## Every writer is kept -/

/-- A queue of a leader and followers, from old to new, and the writers that will arrive. -/
structure Queued (writers : ℕ → Writer) (s : World) (leader : ℕ) (followers late : List ℕ) :
    Prop where
  linked : ∃ newest rest known, (leader :: followers).reverse = newest :: rest ++ known ∧
    s.links.newestWriter = some newest ∧ s.links.linkNewer newest = none ∧
    PartlyLinked s.links newest rest known
  outside : ∀ v ∈ leader :: followers, s.links.writeGroup v = false
  batch : (writers leader).batch ≠ none
  nodup : (s.arrivals.flatten ++ late).Nodup
  apart : ∀ v ∈ leader :: followers, v ∉ s.arrivals.flatten ++ late

/-- The call ends, and the list holds the new writers, those kept out and the group, from new to
old, and each writer once; the group is compatible and within the limit. -/
def KeepsWriters (writers : ℕ → Writer) (maxWriteBatchGroupSizeBytes leader : ℕ)
    (followers new : List ℕ) (outcome : Except Fault Entered) : Prop :=
  ∃ e accepted rejected, outcome = .ok e ∧ accepted.Sublist followers ∧ rejected.Sublist followers ∧
    (accepted ++ rejected).Perm followers ∧ Segment e.links.linkOlder e.links.newestWriter
      (new.reverse ++ (rejected.reverse ++ (leader :: accepted).reverse)) none ∧
    (new.reverse ++ (rejected.reverse ++ (leader :: accepted).reverse)).Nodup ∧
    (∀ v ∈ leader :: followers, e.links.writeGroup v = true ↔ v ∈ leader :: accepted) ∧
    e.group.leader = leader ∧ e.group.size = (leader :: accepted).length ∧
    e.group.lastWriter = (leader :: accepted).getLast (List.cons_ne_nil _ _) ∧
    (∀ w ∈ accepted, Compatible (writers leader) (writers w)) ∧
    e.size = bytes writers (leader :: accepted) ∧
    e.size ≤ limit maxWriteBatchGroupSizeBytes ((writers leader).batch.getD 0)

section Call

variable {s : World} {followers late : List ℕ} {maxBytes fuel : ℕ} {spurious : Bool}

lemma split_start {links : Links} {size : ℕ} (nodup : (leader :: followers).Nodup)
    (older : Segment links.linkOlder (some newest) (leader :: followers).reverse none)
    (newer : (leader :: followers).IsChain fun a b => links.linkNewer a = some b)
    (hend : links.linkNewer ((leader :: followers).getLast (List.cons_ne_nil _ _)) = none)
    (hleader : links.writeGroup leader = true)
    (hfollowers : ∀ v ∈ followers, links.writeGroup v = false) :
    Split links { w := leader, we := leader, size, group := ⟨leader, leader, 1⟩ } [leader] []
      followers where
  nodup := by
    rw [nil_append]
    exact (perm_append_singleton leader followers).nodup_iff.2 nodup
  group_links := by
    rw [reverse_cons] at older
    obtain ⟨m, -, -, hnone⟩ := segment_append.1 older
    exact ⟨rfl, hnone⟩
  rejected_links := rfl
  rejected_last := rfl
  todo_older := isChain_reverse.1 older.isChain
  todo_newer := segment_of_isChain newer hend
  at_end := .inl rfl
  joined := by
    intro v hv
    rw [mem_singleton.1 hv]
    exact hleader
  apart := by
    intro v hv
    rw [append_nil] at hv
    exact hfollowers v hv

/-- The call up to the exchange. -/
lemma Queued.gathered (h : Queued writers s leader followers late) (maxBytes : ℕ) {size : ℕ}
    (hsize : (writers leader).batch = some size) (hfuel : followers.length + 1 < fuel) :
    ∃ newest g links,
      (∀ spurious, enterAsBatchGroupLeader writers maxBytes leader spurious late fuel s =
        (graft newest spurious late fuel g links).map fun links => ⟨links, g.group, g.size⟩) ∧
      Split links g
        ((select writers leader (limit maxBytes size) size followers).1.reverse ++ [leader])
        (select writers leader (limit maxBytes size) size followers).2.reverse [] ∧ g.w = newest ∧
      Segment links.linkOlder links.newestWriter s.arrivals.flatten.reverse (some newest) ∧ g.size =
        bytes writers (leader :: (select writers leader (limit maxBytes size) size followers).1) ∧
      g.group = ⟨leader, g.we,
        1 + (select writers leader (limit maxBytes size) size followers).1.length⟩ := by
  obtain ⟨newest, rest, known, hqueue, hnewest, hnone, partly⟩ := h.linked
  have hmem : ∀ v, v ∈ newest :: rest ++ known ↔ v ∈ leader :: followers := by
    intro v
    rw [← hqueue, mem_reverse]
  have hlength : rest.length + 1 ≤ followers.length + 1 := by
    have hlength := congrArg length hqueue
    simp only [length_reverse, length_cons, length_append] at hlength
    omega
  have hapart : ∀ v ∈ leader :: followers, v ∉ [] ++ s.arrivals.flatten := fun v hv hmem' =>
    h.apart v hv (mem_append_left _ hmem')
  let s₀ : World := { s with links := s.links.join leader }
  have arriving₀ : Arriving s₀ newest [] := ⟨(nodup_append.1 h.nodup).1, hnewest⟩
  obtain ⟨s₁, arrived₁, hok₁, arriving₁, harrived₁, holder₁, hnewer₁, hgroup₁, hchain₁⟩ :=
    createMissingNewerLinks_spec (s := s₀) rest (show rest.length < fuel by omega)
      ⟨partly.nodup, partly.older, partly.missing, partly.newer⟩ arriving₀
      fun v hv => hapart v ((hmem v).1 hv)
  have nodup : (leader :: followers).Nodup := by
    rw [← nodup_reverse, hqueue]
    exact partly.nodup
  have hlast : (leader :: followers).getLast (cons_ne_nil _ _) = newest := by
    have hhead := congrArg head? hqueue
    rw [head?_reverse, getLast?_eq_some_getLast (cons_ne_nil _ _)] at hhead
    exact some.inj hhead
  have split₁ : Split s₁.links
      { w := leader, we := leader, size, group := ⟨leader, leader, 1⟩ } [leader] [] followers := by
    have older : Segment s₁.links.linkOlder (some newest) (leader :: followers).reverse none := by
      rw [hqueue]
      exact partly.older.congr fun v hv => holder₁ v (hapart v ((hmem v).1 hv))
    refine split_start nodup older ?_ ?_ ?_ ?_
    · rw [← hqueue] at hchain₁
      exact isChain_reverse.1 hchain₁
    · rw [hlast, hnewer₁ newest fun hrest => ?_]
      · exact hnone
      · exact (nodup_cons.1 partly.nodup).1 (mem_append_left _ hrest)
    · rw [hgroup₁]
      exact update_self _ _ _
    · intro v hv
      have hne : v ≠ leader := fun heq => (nodup_cons.1 nodup).1 (heq ▸ hv)
      rw [hgroup₁]
      exact (update_of_ne hne _ _).trans (h.outside v (mem_cons_of_mem leader hv))
  obtain ⟨g, s₂, arrived₂, hok₂, split₂, arriving₂, harrived₂, hw, hgsize, hggroup⟩ :=
    gather_spec writers leader (limit maxBytes size) followers
      (show followers.length < fuel by omega) split₁ arriving₁ hlast rfl fun v hv => by
        rw [harrived₁]
        refine hapart v ?_
        simpa [or_comm] using hv
  refine ⟨newest, g, s₂.arrivals.flatten.foldl linkOne s₂.links, fun spurious => ?_, ?_, hw, ?_,
    ?_, hggroup⟩
  · simp only [enterAsBatchGroupLeader, hsize, hnewest]
    rw [show createMissingNewerLinks fuel newest { s with links := s.links.join leader } = .ok s₁
      from hok₁]
    simp only [hok₂]
    cases graft newest spurious late fuel g (s₂.arrivals.flatten.foldl linkOne s₂.links) <;> rfl
  · rw [append_nil] at split₂
    refine split₂.congr (fun v hv => linkOlder_arrived (fun hmem' => ?_) _) (linkNewer_arrived _ _)
      (writeGroup_arrived _ _)
    have harr : v ∈ [] ++ s.arrivals.flatten := by
      rw [show [] ++ s.arrivals.flatten = [] ++ s₀.arrivals.flatten from rfl, ← harrived₁,
        ← harrived₂]
      exact mem_append_right _ hmem'
    exact hapart v (mem_of_select writers leader _ _ _ hv) harr
  · have hsegment := segment_arrived arriving₂.nodup arriving₂.links
    rw [harrived₂, harrived₁] at hsegment
    exact hsegment
  · rw [hgsize, bytes_cons, hsize]
    rfl

lemma le_limit_iff (maxBytes size : ℕ) : size ≤ limit maxBytes size ↔ size ≤ maxBytes := by
  rw [limit]
  split_ifs with hsmall
  · exact iff_of_true (Nat.le_add_right _ _) (hsmall.trans (Nat.div_le_self _ _))
  · rfl

/-- The exchange succeeds, or it fails because writers have arrived, or it is not needed. -/
lemma Queued.keepsWriters (h : Queued writers s leader followers late)
    (hleader : (writers leader).batch.getD 0 ≤ maxBytes)
    (hexchange : spurious = true → s.arrivals.flatten = [] →
      (∀ w ∈ followers, Compatible (writers leader) (writers w)) ∧
        bytes writers (leader :: followers) ≤ limit maxBytes ((writers leader).batch.getD 0))
    (hfuel : followers.length + s.arrivals.flatten.length + 1 < fuel) :
    KeepsWriters writers maxBytes leader followers (s.arrivals.flatten ++ late)
      (enterAsBatchGroupLeader writers maxBytes leader spurious late fuel s) := by
  obtain ⟨size, hbatch⟩ := ne_none_iff_exists'.1 h.batch
  obtain ⟨newest, g, links, henter, split, hw, harrived, hsize, hgroup⟩ :=
    h.gathered maxBytes hbatch (show followers.length + 1 < fuel by omega)
  rw [hbatch, getD_some] at hleader
  have hlimit := (le_limit_iff maxBytes size).2 hleader
  have hall := select_all_iff writers leader _ hlimit followers
  have hsublist := select_sublist writers leader (limit maxBytes size) size followers
  have hperm := select_perm writers leader (limit maxBytes size) size followers
  have hcompatible : ∀ w ∈ (select writers leader (limit maxBytes size) size followers).1,
      Compatible (writers leader) (writers w) :=
    fun w hw => compatible_of_select writers leader _ hw
  have hbytes := bytes_select_le writers leader _ hlimit followers
  have hmem := fun v => mem_of_select writers leader (limit maxBytes size) size followers (v := v)
  revert split hsize hgroup hall hsublist hperm hcompatible hbytes hmem
  generalize select writers leader (limit maxBytes size) size followers = selected
  intro split hsize hgroup hall hsublist hperm hcompatible hbytes hmem
  have hnone : spurious = true → s.arrivals.flatten = [] → selected.2.reverse = [] := by
    intro hspurious harr
    have hfits := hexchange hspurious harr
    rw [bytes_cons, hbatch, getD_some] at hfits
    rw [reverse_eq_nil_iff, hall]
    exact hfits
  obtain ⟨s', hok, hsegment, hwriteGroup⟩ :=
    graft_spec split hw harrived h.nodup (fun v hv => h.apart v (hmem v hv)) hnone
      (show s.arrivals.flatten.length < fuel by omega)
  refine ⟨⟨s', g.group, g.size⟩, selected.1, selected.2, ?_, hsublist.1, hsublist.2, hperm, ?_, ?_,
    ?_, ?_, ?_, ?_, hcompatible, hsize, ?_⟩
  · rw [henter, hok]
    rfl
  · rw [reverse_cons]
    exact hsegment
  · rw [reverse_cons]
    refine nodup_append.2 ⟨nodup_reverse.2 h.nodup, split.nodup, ?_⟩
    rintro v hv _ hv' rfl
    exact h.apart v (hmem v hv') (mem_reverse.1 hv)
  · intro v hv
    rw [hwriteGroup]
    constructor
    · intro hjoined
      by_contra hnotMem
      have hrejected : v ∈ [] ++ selected.2.reverse := by
        rw [mem_cons, not_or] at hnotMem
        have hfollower := (mem_cons.1 hv).resolve_left hnotMem.1
        have hsplit := mem_append.1 (hperm.mem_iff.2 hfollower)
        simpa using hsplit.resolve_left hnotMem.2
      rw [split.apart v hrejected] at hjoined
      cases hjoined
    · intro hmember
      refine split.joined v ?_
      rw [← reverse_cons]
      exact mem_reverse.2 hmember
  · rw [hgroup]
  · rw [hgroup, length_cons, add_comm]
  · have hhead := split.group_links.head
    rw [← reverse_cons, head?_reverse, getLast?_eq_some_getLast (cons_ne_nil _ _)] at hhead
    rw [hgroup]
    exact some.inj hhead
  · rw [hsize, bytes_cons, hbatch]
    exact hbytes

/-- **Write groups keep every writer** if and only if the batch of the leader is within the limit by
itself and, where the exchange fails without a reason, nobody has to be kept out of the group. -/
theorem keepsWriters_iff (h : Queued writers s leader followers late) (maxBytes : ℕ)
    (spurious : Bool) : (∃ n, ∀ fuel, n ≤ fuel →
      KeepsWriters writers maxBytes leader followers (s.arrivals.flatten ++ late)
        (enterAsBatchGroupLeader writers maxBytes leader spurious late fuel s)) ↔
    (writers leader).batch.getD 0 ≤ maxBytes ∧ (spurious = true → s.arrivals.flatten = [] →
        (∀ w ∈ followers, Compatible (writers leader) (writers w)) ∧
          bytes writers (leader :: followers) ≤
            limit maxBytes ((writers leader).batch.getD 0)) := by
  constructor
  · rintro ⟨n, hkeeps⟩
    obtain ⟨e, accepted, rejected, hok, -, -, -, -, -, -, -, -, -, -, hsize, hle⟩ :=
      hkeeps (n + followers.length + 2) (by omega)
    obtain ⟨size, hbatch⟩ := ne_none_iff_exists'.1 h.batch
    rw [hsize, bytes_cons, hbatch, getD_some] at hle
    rw [hbatch, getD_some]
    have hleader : size ≤ maxBytes := (le_limit_iff _ _).1 ((Nat.le_add_right _ _).trans hle)
    refine ⟨hleader, fun hspurious harr => ?_⟩
    subst hspurious
    obtain ⟨newest, g, links, henter, split, hw, harrived, -, -⟩ :=
      h.gathered maxBytes hbatch (show followers.length + 1 < n + followers.length + 2 by omega)
    have hall := select_all_iff writers leader _ ((le_limit_iff maxBytes _).2 hleader) followers
    have hperm := select_perm writers leader (limit maxBytes size) size followers
    rw [bytes_cons, hbatch, getD_some]
    refine hall.1 ?_
    by_contra hrejected
    have hlength := hperm.length_eq
    rw [length_append] at hlength
    have hnull := graft_null split hw (by simpa [harr] using harrived) (by simpa using hrejected)
      (fun v hv hlate => h.apart v (mem_of_select writers leader _ _ _ hv)
        (mem_append_right _ hlate)) (show _ ≤ n + followers.length + 2 by
        simp only [length_append, length_reverse, length_singleton]
        omega)
    rw [henter, hnull] at hok
    cases hok
  · rintro ⟨hleader, hexchange⟩
    exact ⟨followers.length + s.arrivals.flatten.length + 2, fun fuel hfuel =>
      h.keepsWriters hleader hexchange (by omega)⟩

end Call

end Run

/-- A leader and a follower that asks for a sync write, which has no forward link yet. -/
def syncFollower : World :=
  ⟨⟨fun w => if w = 1 then some 0 else none, fun _ => none, fun _ => false, some 1⟩, []⟩

/-- The options of the two writers. -/
def syncWriters (w : ℕ) : Writer := { batch := some 10, sync := w = 1 }

lemma queued_syncFollower : Queued syncWriters syncFollower 0 [1] [] where
  linked := ⟨1, [0], [], rfl, rfl, rfl,
    ⟨by decide, ⟨rfl, rfl, rfl⟩, fun _ _ => rfl, isChain_singleton _⟩⟩
  outside := fun _ _ => rfl
  batch := by decide
  nodup := nodup_nil
  apart := fun _ _ => not_mem_nil

theorem keepsWriters_iff_syncFollower : Queued syncWriters syncFollower 0 [1] [] ∧
    ∃ n, ∀ fuel, n ≤ fuel → KeepsWriters syncWriters 1000 0 [1] []
      (enterAsBatchGroupLeader syncWriters 1000 0 false [] fuel syncFollower) :=
  ⟨queued_syncFollower, (keepsWriters_iff queued_syncFollower 1000 false).2
    ⟨by decide, fun h => by cases h⟩⟩

/-- The follower is kept out, and the exchange fails without a reason: the leader looks for a writer
that is linked to the newest one, starts at the newest one itself and passes the end of the list. -/
theorem spurious_failure_null_link :
    ¬ ∀ (writers : ℕ → Writer) (s : World) (leader : ℕ) (followers late : List ℕ)
      (maxBytes : ℕ) (spurious : Bool), Queued writers s leader followers late →
      ∃ n, ∀ fuel, n ≤ fuel →
        KeepsWriters writers maxBytes leader followers (s.arrivals.flatten ++ late)
          (enterAsBatchGroupLeader writers maxBytes leader spurious late fuel s) := by
  intro h
  obtain ⟨n, hn⟩ := h syncWriters syncFollower 0 [1] [] 1000 true queued_syncFollower
  obtain ⟨e, -, -, hok, -⟩ := hn (n + 4) (by omega)
  have hnull : enterAsBatchGroupLeader syncWriters 1000 0 true [] (n + 4) syncFollower =
      .error .nullLink := rfl
  rw [hnull] at hok
  cases hok

end BucketLSM.Write
