import BucketLSM.Lock.PointLock

/-!
# Mutual exclusion of point locks

A lock is stolen when it is expired, and a shared lock has one expiration time for all its holders:
the latest, where a holder that never expires counts as the earliest. Beside a run stands who was
granted a lock and has not given it back. As long as holders that expire and holders that never do
are not mixed, a lock that excludes others is granted only when the others have expired.
-/

namespace BucketLSM.Lock

open List Finset

variable {K : Type} [DecidableEq K]

/-! ## Who holds a lock -/

/-- Who holds a lock after a step: a transaction from the time it is granted the lock until it
unlocks the key, whether its lock was stolen or not. -/
def grant (opts : LockOptions) (key : K) (s : LockState K) (held : Finset ℕ) : LockStep K → Finset ℕ
  | .acquire key' txnId exclusive expireTime =>
    if key' = key ∧ (acquireLocked opts key' txnId exclusive expireTime s).1.status = .ok then
      insert txnId held
    else held
  | .unLock key' txnId => if key' = key then held.erase txnId else held
  | .tick _ => held
  | .transaction _ _ => held

/-- Who holds the lock of a key after some steps. -/
def holders (opts : LockOptions) (key : K) (steps : List (LockStep K)) : Finset ℕ :=
  (steps.foldl (fun p a => (step opts p.1 a, grant opts key p.1 p.2 a)) ({}, ∅)).2

lemma fst_foldl_grant (opts : LockOptions) (key : K) (steps : List (LockStep K))
    (p : LockState K × Finset ℕ) :
    (steps.foldl (fun p a => (step opts p.1 a, grant opts key p.1 p.2 a)) p).1 =
      steps.foldl (step opts) p.1 := by
  induction steps generalizing p with
  | nil => rfl
  | cons a steps ih =>
    rw [foldl_cons, foldl_cons]
    exact ih _

lemma holders_append (opts : LockOptions) (key : K) (steps : List (LockStep K)) (a : LockStep K) :
    holders opts key (steps ++ [a]) =
      grant opts key (run opts steps) (holders opts key steps) a := by
  rw [run, ← fst_foldl_grant opts key steps ({}, ∅)]
  simp only [holders, foldl_append, foldl_cons, foldl_nil]

/-- The time of a transaction that expires has passed. -/
def LockOptions.Passed (opts : LockOptions) (now txnId : ℕ) : Prop :=
  opts.expiration txnId ≠ 0 ∧ opts.expiration txnId ≤ now

/-- A step that grants an exclusive lock, or a shared lock against an exclusive one, finds that the
time of all other holders has passed. -/
def Excludes (opts : LockOptions) (key : K) (s : LockState K) (held : Finset ℕ)
    (a : LockStep K) : Prop :=
  ∀ txnId exclusive expireTime, a = .acquire key txnId exclusive expireTime →
    (acquireLocked opts key txnId exclusive expireTime s).1.status = .ok →
    (exclusive = true ∨ ∃ info, s.find key = some info ∧ info.exclusive = true) →
    ∀ id ∈ held, id ≠ txnId → opts.Passed s.now id

/-- Where a transaction joins the holders of a shared lock, both expire or none does. -/
def JoinsAlike (opts : LockOptions) (key : K) (s : LockState K) (a : LockStep K) : Prop :=
  ∀ txnId expireTime info, a = .acquire key txnId false expireTime → s.find key = some info →
    info.exclusive = false → (info.expirationTime = 0 ↔ opts.expiration txnId = 0)

/-! ## One entry of a list taken away -/

lemma mem_of_mem_swapRemove {i id : ℕ} {ids : List ℕ} (h : id ∈ swapRemove i ids)
    (hne : ids ≠ []) : id ∈ ids := by
  have hmem := mem_of_mem_dropLast h
  rcases mem_or_eq_of_mem_set hmem with hmem | rfl
  · exact hmem
  · rw [getLastD_eq_getLast?, getLast?_eq_some_getLast hne, Option.getD_some]
    exact getLast_mem hne

lemma mem_swapRemove {i id txnId : ℕ} {ids : List ℕ} (hi : ids[i]? = some txnId)
    (h : id ∈ ids) (hne : id ≠ txnId) : id ∈ swapRemove i ids := by
  obtain ⟨hlt, hget⟩ := List.getElem?_eq_some_iff.1 hi
  obtain ⟨j, hj, hjget⟩ := getElem_of_mem h
  have hij : i ≠ j := by
    rintro rfl
    exact hne (hjget.symm.trans hget)
  rw [swapRemove, dropLast_eq_take, length_set, mem_take_iff_getElem]
  by_cases hlast : j < ids.length - 1
  · refine ⟨j, by rw [length_set]; omega, ?_⟩
    rw [getElem_set_ne hij, hjget]
  · -- the entry is the last one, and it is moved to where the other one was
    have hj' : j = ids.length - 1 := by omega
    subst hj'
    refine ⟨i, by rw [length_set]; omega, ?_⟩
    rw [getElem_set_self, getLastD_eq_getLast?, getLast?_eq_getElem?,
      getElem?_eq_getElem hj, Option.getD_some, hjget]

/-! ## The holders a lock still knows -/

section Invariant

variable {opts : LockOptions} {key : K} {s : LockState K} {held : Finset ℕ}

/-- A holder is known to the lock, or its time has passed. A lock that expires does so only after
all the holders it knows. -/
structure KnowsHolders (opts : LockOptions) (key : K) (s : LockState K) (held : Finset ℕ) :
    Prop where
  known : ∀ id ∈ held, opts.Passed s.now id ∨ ∃ info, s.find key = some info ∧ id ∈ info.txnIds
  latest : ∀ info, s.find key = some info → info.expirationTime ≠ 0 →
    ∀ id ∈ info.txnIds, opts.Passed info.expirationTime id

lemma LockOptions.Passed.mono {now now' id : ℕ} (h : opts.Passed now id) (hle : now ≤ now') :
    opts.Passed now' id :=
  ⟨h.1, h.2.trans hle⟩

lemma KnowsHolders.excludes (inv : KnowsHolders opts key s held) (a : LockStep K) :
    Excludes opts key s held a := by
  intro txnId exclusive expireTime _ hok hexcludes id hid hne
  rcases acquireLocked_cases (Prod.mk.eta (p :=
      acquireLocked opts key txnId exclusive expireTime s)).symm with
    ⟨hfailed, -⟩ | ⟨-, info, info', expirable, hfind, hregrant, -⟩ | ⟨-, hnone, -⟩
  · exact absurd hok hfailed
  · rcases inv.known id hid with hpassed | ⟨info', hfind', hmem⟩
    · exact hpassed
    rw [hfind] at hfind'
    cases hfind'
    cases hregrant with
    | own only =>
      rw [only, List.mem_singleton] at hmem
      exact absurd hmem hne
    | steal expires expired => exact (inv.latest info hfind expires id hmem).mono expired
    | join shared request =>
      rcases hexcludes with hexclusive | ⟨info', hfind', hexclusive⟩
      · simp [request] at hexclusive
      · rw [hfind] at hfind'
        cases hfind'
        simp [shared] at hexclusive
  · rcases inv.known id hid with hpassed | ⟨info, hfind, -⟩
    · exact hpassed
    · rw [hnone] at hfind
      cases hfind

variable {txnId : ℕ}

section

variable (inv : KnowsHolders opts key s held)

include inv

lemma KnowsHolders.regrant {exclusive : Bool}
    {info info' : LockInfo} (hfind : s.find key = some info)
    (h : Regrant opts txnId exclusive s.now info info')
    (alike : info.exclusive = false → exclusive = false →
      (info.expirationTime = 0 ↔ opts.expiration txnId = 0)) : txnId ∈ info'.txnIds ∧
    (∀ id ∈ info.txnIds, opts.Passed s.now id ∨ id ∈ info'.txnIds) ∧
    (info'.expirationTime ≠ 0 → ∀ id ∈ info'.txnIds, opts.Passed info'.expirationTime id) := by
  cases h with
  | own only =>
    rw [only]
    refine ⟨List.mem_singleton_self _, fun id hid => .inr hid, fun hexpires id hid => ?_⟩
    rw [List.mem_singleton.1 hid]
    exact ⟨hexpires, le_rfl⟩
  | steal expires expired =>
    refine ⟨List.mem_singleton_self _, fun id hid => ?_, fun hexpires id hid => ?_⟩
    · exact .inl ((inv.latest info hfind expires id hid).mono expired)
    · rw [List.mem_singleton.1 hid]
      exact ⟨hexpires, le_rfl⟩
  | join shared request =>
    refine ⟨by simp, fun id hid => .inr (List.mem_append_left _ hid), fun hexpires id hid => ?_⟩
    have hboth : info.expirationTime ≠ 0 ∧ opts.expiration txnId ≠ 0 := by
      have halike := alike shared request
      simp only at hexpires
      omega
    rcases List.mem_append.1 hid with hid | hid
    · exact (inv.latest info hfind hboth.1 id hid).mono (le_max_left _ _)
    · rw [List.mem_singleton.1 hid]
      exact ⟨hboth.2, le_max_right _ _⟩

/-- A step that does not touch the lock of the key. -/
lemma KnowsHolders.of_find {s' : LockState K}
    {held' : Finset ℕ} (hfind : s'.find key = s.find key) (hnow : s.now ≤ s'.now)
    (hheld : held' ⊆ held) : KnowsHolders opts key s' held' := by
  refine ⟨fun id hid => ?_, fun info h => inv.latest info (hfind ▸ h)⟩
  rw [hfind]
  exact (inv.known id (hheld hid)).imp_left fun hpassed => hpassed.mono hnow

lemma KnowsHolders.granted {s' : LockState K}
    {info' : LockInfo} (hfind : s'.find key = some info') (hnow : s'.now = s.now)
    (new : txnId ∈ info'.txnIds) (kept : ∀ info, s.find key = some info →
      ∀ id ∈ info.txnIds, opts.Passed s.now id ∨ id ∈ info'.txnIds)
    (latest : info'.expirationTime ≠ 0 → ∀ id ∈ info'.txnIds, opts.Passed info'.expirationTime id) :
    KnowsHolders opts key s' (insert txnId held) := by
  refine ⟨fun id hid => ?_, fun info h => ?_⟩
  · rw [hnow]
    rcases mem_insert.1 hid with rfl | hid
    · exact .inr ⟨info', hfind, new⟩
    rcases inv.known id hid with hpassed | ⟨info, hinfo, hid⟩
    · exact .inl hpassed
    · exact (kept info hinfo id hid).imp_right fun hid => ⟨info', hfind, hid⟩
  · rw [hfind] at h
    cases h
    exact latest

lemma KnowsHolders.acquire {key' : K} {exclusive : Bool}
    {expireTime : ℕ} (alike : JoinsAlike opts key s (.acquire key' txnId exclusive expireTime)) :
    KnowsHolders opts key (step opts s (.acquire key' txnId exclusive expireTime))
      (grant opts key s held (.acquire key' txnId exclusive expireTime)) := by
  simp only [step, grant]
  rcases acquireLocked_cases (Prod.mk.eta (p :=
      acquireLocked opts key' txnId exclusive expireTime s)).symm with
    ⟨hfailed, expirable, hs'⟩ | ⟨hok, info, info', expirable, hfind, hregrant, hs'⟩ |
      ⟨hok, hnone, hs'⟩
  · rw [hs', if_neg fun h => hfailed h.2]
    exact inv.of_find rfl le_rfl (Finset.Subset.refl _)
  · have hmem : key' ∈ s.keys.map Prod.fst :=
      List.mem_map.2 ⟨_, LockState.mem_of_find hfind, rfl⟩
    have hfound : (LockState.setLock { s with expirable } key' info').find key =
        if key = key' then some info' else s.find key :=
      LockState.find_setLock (s := { s with expirable }) hmem info' key
    rw [hs']
    by_cases hkey : key' = key
    · subst hkey
      obtain ⟨hnew, hkept, hlatest⟩ := inv.regrant hfind hregrant fun hshared hrequest =>
        alike txnId expireTime info (by rw [hrequest]) hfind hshared
      rw [if_pos rfl] at hfound
      rw [if_pos ⟨rfl, hok⟩]
      refine inv.granted hfound rfl hnew (fun info'' h => ?_) hlatest
      rw [hfind] at h
      cases h
      exact hkept
    · rw [if_neg (Ne.symm hkey)] at hfound
      rw [if_neg fun h => hkey h.1]
      exact inv.of_find hfound le_rfl (Finset.Subset.refl _)
  · generalize hs'' : (acquireLocked opts key' txnId exclusive expireTime s).2 = s' at hs' ⊢
    have hnow : s'.now = s.now := by rw [hs']
    have hfound : s'.find key =
        if key' = key then some (opts.request txnId exclusive) else s.find key := by
      rw [hs', LockState.find, List.find?_cons]
      by_cases hkey : key' = key <;> simp [hkey, LockState.find]
    by_cases hkey : key' = key
    · subst hkey
      rw [if_pos rfl] at hfound
      rw [if_pos ⟨rfl, hok⟩]
      refine inv.granted hfound hnow (List.mem_singleton_self _) (fun info h => ?_)
        fun hexpires id hid => ?_
      · rw [hnone] at h
        cases h
      · rw [List.mem_singleton.1 hid]
        exact ⟨hexpires, le_rfl⟩
    · rw [if_neg hkey] at hfound
      rw [if_neg fun h => hkey h.1]
      exact inv.of_find hfound hnow.ge (Finset.Subset.refl _)

lemma KnowsHolders.unLock (key' : K) (txnId : ℕ) :
    KnowsHolders opts key (step opts s (.unLock key' txnId))
      (grant opts key s held (.unLock key' txnId)) := by
  simp only [step, grant]
  have hsubset : (if key' = key then held.erase txnId else held) ⊆ held := by
    split_ifs
    · exact erase_subset _ _
    · exact Subset.refl _
  rcases unLockKey_cases opts key' txnId s with ⟨hs', -⟩ |
    ⟨info, hfind, hmem, ⟨hlength, hs'⟩ | ⟨hlength, i, hi, hs'⟩⟩
  · rw [hs']
    exact inv.of_find rfl le_rfl hsubset
  · have hfound : (unLockKey opts key' txnId s).find key =
        if key = key' then none else s.find key := by
      rw [hs']
      exact LockState.find_eraseLock s key' key
    have hnow : (unLockKey opts key' txnId s).now = s.now := by
      rw [hs']
      rfl
    by_cases hkey : key' = key
    · subst hkey
      rw [if_pos rfl] at hfound
      rw [if_pos rfl]
      refine ⟨fun id hid => ?_, fun info h => ?_⟩
      · obtain ⟨hne, hid⟩ := mem_erase.1 hid
        rw [hnow]
        rcases inv.known id hid with hpassed | ⟨info', hfind', hid⟩
        · exact .inl hpassed
        rw [hfind] at hfind'
        cases hfind'
        -- the transaction was the only holder the lock knew
        obtain ⟨only, honly⟩ := length_eq_one_iff.1 hlength
        rw [honly, List.mem_singleton] at hmem hid
        exact absurd (hid.trans hmem.symm) hne
      · rw [hfound] at h
        cases h
    · rw [if_neg (Ne.symm hkey)] at hfound
      exact inv.of_find hfound hnow.ge hsubset
  · have hmem' : key' ∈ s.keys.map Prod.fst :=
      mem_map.2 ⟨_, LockState.mem_of_find hfind, rfl⟩
    have hfound : (unLockKey opts key' txnId s).find key = if key = key' then
        some { info with txnIds := swapRemove i info.txnIds } else s.find key := by
      rw [hs']
      exact LockState.find_setLock hmem' _ key
    have hnow : (unLockKey opts key' txnId s).now = s.now := by
      rw [hs']
      rfl
    by_cases hkey : key' = key
    · subst hkey
      rw [if_pos rfl] at hfound
      rw [if_pos rfl]
      refine ⟨fun id hid => ?_, fun info' h hexpires id hid => ?_⟩
      · obtain ⟨hne, hid⟩ := mem_erase.1 hid
        rw [hnow, hfound]
        rcases inv.known id hid with hpassed | ⟨info', hfind', hid⟩
        · exact .inl hpassed
        rw [hfind] at hfind'
        cases hfind'
        exact .inr ⟨_, rfl, mem_swapRemove hi hid hne⟩
      · rw [hfound] at h
        cases h
        exact inv.latest info hfind hexpires id (mem_of_mem_swapRemove hid (ne_nil_of_mem hmem))
    · rw [if_neg (Ne.symm hkey)] at hfound
      exact inv.of_find hfound hnow.ge hsubset

lemma KnowsHolders.step {a : LockStep K} (alike : JoinsAlike opts key s a) :
    KnowsHolders opts key (step opts s a) (grant opts key s held a) := by
  cases a with
  | acquire key' txnId exclusive expireTime => exact inv.acquire alike
  | unLock key' txnId => exact inv.unLock key' txnId
  | tick micros => exact inv.of_find rfl (Nat.le_add_right _ _) (Subset.refl _)
  | transaction id state => exact inv.of_find rfl le_rfl (Subset.refl _)

end

lemma knowsHolders_run (steps : List (LockStep K))
    (alike : ∀ front a, front ++ [a] <+: steps → JoinsAlike opts key (run opts front) a) :
    KnowsHolders opts key (run opts steps) (holders opts key steps) := by
  induction steps using reverseRecOn with
  | nil => exact ⟨fun id hid => absurd hid (notMem_empty id), fun info h => by cases h⟩
  | append_singleton steps a ih =>
    rw [run_append, holders_append]
    refine (ih fun front b hfront => ?_).step (alike steps a prefix_rfl)
    exact alike front b (hfront.trans (prefix_append steps [a]))

end Invariant

/-- **Mutual exclusion.** If holders that expire and holders that never do are not mixed on a key,
then along the whole run a lock that excludes others is granted only when the time of all other
holders has passed. -/
theorem excludes_of_joinsAlike (opts : LockOptions) (key : K) (steps : List (LockStep K))
    (alike : ∀ front a, front ++ [a] <+: steps → JoinsAlike opts key (run opts front) a)
    (front : List (LockStep K)) (a : LockStep K) (hfront : front ++ [a] <+: steps) :
    Excludes opts key (run opts front) (holders opts key front) a := by
  refine KnowsHolders.excludes (knowsHolders_run front fun front' b hfront' => ?_) a
  exact alike front' b ((hfront'.trans (prefix_append front [a])).trans hfront)

/-- Two transactions share a lock; when the time of both has passed, a third is granted it. -/
theorem excludes_of_joinsAlike_two :
    (∀ front a, front ++ [a] <+: [.acquire 7 1 false 0, .acquire 7 2 false 0, .tick 6,
        LockStep.acquire 7 3 true 0] → JoinsAlike ⟨0, fun _ => 5⟩ 7 (run ⟨0, fun _ => 5⟩ front) a) ∧
    Excludes ⟨0, fun _ => 5⟩ 7
      (run ⟨0, fun _ => 5⟩ [.acquire 7 1 false 0, .acquire 7 2 false 0, .tick 6])
      (holders ⟨0, fun _ => 5⟩ 7 [.acquire 7 1 false 0, .acquire 7 2 false 0, .tick 6])
      (.acquire 7 3 true 0) := by
  have halike : ∀ front a, front ++ [a] <+: [.acquire 7 1 false 0, .acquire 7 2 false 0, .tick 6,
        LockStep.acquire 7 3 true 0] →
      JoinsAlike ⟨0, fun _ => 5⟩ 7 (run ⟨0, fun _ => 5⟩ front) a := by
    intro front a hfront txnId expireTime info ha hfind _
    refine iff_of_false (fun hzero => ?_) (by simp)
    subst ha
    rcases front with _ | ⟨a, _ | ⟨b, _ | ⟨c, front⟩⟩⟩
    all_goals simp at hfront
    · cases hfind
    · obtain ⟨rfl, rfl, rfl⟩ := hfront
      cases hfind
      cases hzero
    · have hmem : LockStep.acquire 7 txnId false expireTime ∈ [LockStep.acquire 7 3 true 0] :=
        hfront.2.2.2.subset (by simp)
      simp at hmem
  exact ⟨halike, excludes_of_joinsAlike _ 7 _ halike _ _ prefix_rfl⟩

/-- The first transaction never expires and shares its lock with a second that does: when the time
of the second has passed, a third is granted the exclusive lock. -/
theorem never_expiring_lock_stolen :
    ¬ ∀ (opts : LockOptions) (steps front : List (LockStep ℕ)) (a : LockStep ℕ) (key : ℕ),
      front ++ [a] <+: steps → Excludes opts key (run opts front) (holders opts key front) a := by
  intro h
  have hexcludes := h ⟨0, fun id => if id = 2 then 5 else 0⟩ _
    [.transaction 2 (some .started), .acquire 7 1 false 0, .acquire 7 2 false 0, .tick 6] _ 7
    prefix_rfl 3 true 0 rfl (by decide) (.inl rfl) 1 (by decide) (by decide)
  exact hexcludes.1 rfl

end BucketLSM.Lock
