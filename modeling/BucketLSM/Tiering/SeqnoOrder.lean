import BucketLSM.Bytes
import BucketLSM.Tiering.SeqnoToTime

/-!
# The order of the pairs

Pairs whose times go back are merged with the pair right before them only. The pairs increase in
both components if no time goes back as far as a pair before that one.
-/

namespace BucketLSM.SeqnoToTimeMapping

open BucketLSM.Lib BucketLSM.Lib.Wire SeqnoTimePair List

/-- The second pair comes later in both components. -/
def Later (a b : SeqnoTimePair) : Prop := a.seqno < b.seqno ∧ a.time < b.time

/-- The pairs strictly increase in both components. -/
def Increasing (pairs : List SeqnoTimePair) : Prop := pairs.Pairwise Later

instance : DecidableRel Later := fun _ _ => inferInstanceAs (Decidable (_ ∧ _))

instance : DecidablePred Increasing := fun _ => inferInstanceAs (Decidable (List.Pairwise _ _))

/-- Where the time rises from one sequence number to a greater one, no time recorded from there on
goes back as far as the first of them. -/
def NoDeepStepBack (pairs : List SeqnoTimePair) : Prop :=
  ∀ a ∈ pairs, ∀ b ∈ pairs, ∀ c ∈ pairs,
    a.seqno < b.seqno → b.seqno ≤ c.seqno → a.time < b.time → a.time < c.time

instance : DecidablePred NoDeepStepBack := fun pairs =>
  inferInstanceAs (Decidable (∀ a ∈ pairs, ∀ b ∈ pairs, ∀ c ∈ pairs,
    a.seqno < b.seqno → b.seqno ≤ c.seqno → a.time < b.time → a.time < c.time))

lemma NoDeepStepBack.subset {l l' : List SeqnoTimePair} (h : NoDeepStepBack l)
    (hsub : ∀ p ∈ l', p ∈ l) : NoDeepStepBack l' :=
  fun a ha b hb c hc => h a (hsub a ha) b (hsub b hb) c (hsub c hc)

variable {last p : SeqnoTimePair} {pairs : List SeqnoTimePair} {m : SeqnoToTimeMapping}

/-! ## Merging -/

/-- What `Merge` makes of a pair and one that does not sort before it. -/
lemma merge_cases (h : last.seqno ≤ p.seqno) :
    (∃ merged, last.merge p = some merged ∧ merged.seqno = p.seqno ∧
      (merged.time = last.time ∨ merged.time = p.time ∧ p.time < last.time)) ∨
    (last.merge p = none ∧ Later last p) := by
  unfold SeqnoTimePair.merge
  by_cases hseqno : last.seqno = p.seqno
  · rw [if_pos hseqno]
    refine .inl ⟨_, rfl, hseqno, ?_⟩
    rcases le_or_gt last.time p.time with hle | hlt
    · exact .inl (min_eq_left hle)
    · exact .inr ⟨min_eq_right hlt.le, hlt⟩
  rw [if_neg hseqno]
  by_cases htime : last.time = p.time
  · rw [if_pos htime]
    exact .inl ⟨_, rfl, max_eq_right h, .inl rfl⟩
  rw [if_neg htime]
  by_cases hback : p.time < last.time
  · rw [if_pos hback]
    exact .inl ⟨p, rfl, rfl, .inr ⟨rfl, hback⟩⟩
  · rw [if_neg hback]
    exact .inr ⟨rfl, by omega, by omega⟩

/-- The entry that the loop of `SortAndMerge` merges into stands for a pair `b`, and the entries
before it (`before`) for pairs that `b` comes later than. -/
structure Standing (all : List SeqnoTimePair) (before : SeqnoTimePair → Prop)
    (last : SeqnoTimePair) : Prop where
  exists_pair : ∃ b ∈ all, b.time = last.time ∧ b.seqno ≤ last.seqno ∧
    ∀ o, before o → o.seqno < b.seqno ∧ o.time < b.time ∧
      ∃ a ∈ all, a.time = o.time ∧ a.seqno ≤ o.seqno

lemma increasing_mergeFrom {all : List SeqnoTimePair} (hall : NoDeepStepBack all)
    {before : SeqnoTimePair → Prop} (hlast : Standing all before last)
    (hpairs : ∀ p ∈ pairs, p ∈ all)
    (hsorted : (last :: pairs).Pairwise fun a b => a.seqno ≤ b.seqno) :
    Increasing (mergeFrom last pairs) ∧ ∀ o, before o → ∀ p ∈ mergeFrom last pairs, Later o p := by
  induction pairs generalizing last before with
  | nil =>
    obtain ⟨b, -, htime, hseqno, hbefore⟩ := hlast.exists_pair
    refine ⟨pairwise_singleton _ _, fun o ho p hp => ?_⟩
    obtain rfl := mem_singleton.1 hp
    obtain ⟨hos, hot, -⟩ := hbefore o ho
    exact ⟨by omega, by omega⟩
  | cons p pairs ih =>
    obtain ⟨b, hb, htime, hseqno, hbefore⟩ := hlast.exists_pair
    have hp : p ∈ all := hpairs p (by simp)
    have hrest : ∀ q ∈ pairs, q ∈ all := fun q hq => hpairs q (mem_cons_of_mem p hq)
    obtain ⟨hhead, htail⟩ := pairwise_cons.1 hsorted
    have hle : last.seqno ≤ p.seqno := hhead p (by simp)
    have hp_le : ∀ q ∈ pairs, p.seqno ≤ q.seqno := (pairwise_cons.1 htail).1
    unfold mergeFrom
    rcases merge_cases hle with ⟨merged, hmerge, hms, hmt⟩ | ⟨hmerge, hlater⟩
    · rw [hmerge]
      refine ih ?_ hrest (pairwise_cons.2 ⟨fun q hq => hms ▸ hp_le q hq, htail.of_cons⟩)
      rcases hmt with hmt | ⟨hmt, hback⟩
      · exact ⟨b, hb, by omega, by omega, hbefore⟩
      · -- the merged entry stands for `p`, which is not back as far as the entries before
        refine ⟨p, hp, hmt.symm, hms.ge, fun o ho => ?_⟩
        obtain ⟨hos, hot, a, ha, hat, has⟩ := hbefore o ho
        have hstep := hall a ha b hb p hp (by omega) (by omega) (by omega)
        exact ⟨by omega, by omega, a, ha, hat, has⟩
    · rw [hmerge]
      have hstanding : Standing all (fun o => before o ∨ o = last) p := by
        refine ⟨p, hp, rfl, le_rfl, fun o ho => ?_⟩
        rcases ho with ho | rfl
        · obtain ⟨hos, hot, hpair⟩ := hbefore o ho
          exact ⟨by have := hlater.1; omega, by have := hlater.2; omega, hpair⟩
        · exact ⟨hlater.1, hlater.2, b, hb, htime, hseqno⟩
      obtain ⟨hinc, hafter⟩ := ih hstanding hrest htail
      refine ⟨pairwise_cons.2 ⟨hafter last (.inr rfl), hinc⟩, fun o ho q hq => ?_⟩
      rcases mem_cons.1 hq with rfl | hq
      · obtain ⟨hos, hot, -⟩ := hbefore o ho
        exact ⟨by omega, by omega⟩
      · exact hafter o (.inl ho) q hq

instance : Std.Total SeqnoTimePair.SortsBefore :=
  ⟨fun a b => by unfold SeqnoTimePair.SortsBefore; omega⟩

instance : IsTrans SeqnoTimePair SeqnoTimePair.SortsBefore :=
  ⟨fun a b c => by unfold SeqnoTimePair.SortsBefore; omega⟩

/-- `SortAndMerge` leaves increasing pairs if no time goes back too far. -/
lemma increasing_sortAndMergePairs (h : NoDeepStepBack pairs) :
    Increasing (sortAndMergePairs pairs) := by
  have hmem : ∀ p, p ∈ pairs.insertionSort SortsBefore ↔ p ∈ pairs :=
    fun p => (perm_insertionSort _ pairs).mem_iff
  have hsorted := pairwise_insertionSort SortsBefore pairs
  unfold sortAndMergePairs
  generalize pairs.insertionSort SortsBefore = sorted at hmem hsorted
  cases sorted with
  | nil => exact .nil
  | cons first rest =>
    have hstanding : Standing pairs (fun _ => False) first :=
      ⟨first, (hmem first).1 (by simp), rfl, le_rfl, fun _ ho => ho.elim⟩
    refine (increasing_mergeFrom h hstanding
      (fun p hp => (hmem p).1 (mem_cons_of_mem first hp)) (hsorted.imp ?_)).1
    intro a b hab
    unfold SortsBefore at hab
    omega

/-! ## Limits remove pairs -/

lemma dropOld_sublist (cutoffTime : ℕ) (pairs : List SeqnoTimePair) :
    (dropOld cutoffTime pairs).Sublist pairs := by
  induction pairs with
  | nil => exact .slnil
  | cons a pairs ih =>
    cases pairs with
    | nil => exact .refl _
    | cons b pairs =>
      unfold dropOld
      split_ifs
      · exact ih.cons a
      · exact .refl _

lemma pairs_enforceMaxTimeSpan_sublist (now : ℕ) (m : SeqnoToTimeMapping) :
    (m.enforceMaxTimeSpan now).pairs.Sublist m.pairs := by
  unfold enforceMaxTimeSpan
  generalize (if 0 < now then now else timeAt m.pairs (m.pairs.length - 1)) = latest
  dsimp only
  split_ifs
  · exact .refl _
  · exact .refl _
  · exact dropOld_sublist _ _

/-- What is left of pairs when those that are marked for removal go. -/
def unmarked (pairs : List SeqnoTimePair) : List SeqnoTimePair :=
  pairs.filter fun p => p.time ≠ kUnknownTimeBeforeAll

lemma unmarked_markRemoved_sublist (pairs : List SeqnoTimePair) (i : ℕ) :
    (unmarked (markRemoved pairs i)).Sublist (unmarked pairs) := by
  induction pairs generalizing i with
  | nil => simp [markRemoved, unmarked]
  | cons p pairs ih =>
    cases i with
    | zero =>
      have hmark : unmarked (markRemoved (p :: pairs) 0) = unmarked pairs := by
        simp [unmarked, markRemoved]
      rw [hmark]
      exact (sublist_cons_self p pairs).filter _
    | succ i =>
      have hmark : markRemoved (p :: pairs) (i + 1) = p :: markRemoved pairs i := by
        simp [markRemoved]
      rw [hmark]
      unfold unmarked
      rw [filter_cons, filter_cons]
      split_ifs
      · exact (ih i).cons_cons p
      · exact ih i

lemma unmarked_markCandidates_sublist (pairs : List SeqnoTimePair)
    (queue : List RemovalCandidate) (toRemove : ℕ) :
    (unmarked (markCandidates pairs queue toRemove)).Sublist (unmarked pairs) := by
  fun_induction markCandidates pairs queue toRemove with
  | case1 pairs queue => exact .refl _
  | case2 pairs queue n h => exact .refl _
  | case3 pairs queue n c h hgap ih => exact ih.trans (unmarked_markRemoved_sublist pairs c.index)
  | case4 pairs queue n c h hgap ih => exact ih

lemma pairs_enforceCapacity_sublist (strict : Bool) (m : SeqnoToTimeMapping) :
    (m.enforceCapacity strict).pairs.Sublist m.pairs := by
  have hmarked := fun toRemove => (unmarked_markCandidates_sublist m.pairs
    (removalCandidates m.pairs) toRemove).trans filter_sublist
  unfold enforceCapacity
  dsimp only
  split_ifs
  all_goals first | exact nil_sublist _ | exact .refl _ | exact hmarked _

/-! ## Appending -/

lemma eq_of_merge {merged : SeqnoTimePair} (h : last.seqno ≤ p.seqno)
    (hmerge : last.merge p = some merged) : merged = last ∨ merged = p := by
  cases last with | mk ls lt =>
  cases p with | mk ps pt =>
  unfold SeqnoTimePair.merge at hmerge
  dsimp only at h hmerge
  split_ifs at hmerge with hseqno htime hback
  · obtain rfl := Option.some.inj hmerge
    rcases le_total lt pt with hle | hle
    · exact .inl (by rw [min_eq_left hle])
    · exact .inr (by rw [min_eq_right hle, hseqno])
  · obtain rfl := Option.some.inj hmerge
    exact .inr (by rw [max_eq_right h, htime])
  · exact .inr (Option.some.inj hmerge).symm

lemma mem_appendPair {q : SeqnoTimePair} (h : q ∈ (m.appendPair p).2) : q ∈ m.pairs ++ [p] := by
  unfold appendPair at h
  cases hlast : m.pairs.getLast? with
  | none =>
    rw [hlast] at h
    exact mem_append_right _ h
  | some last =>
    rw [hlast] at h
    dsimp only at h
    have hmem : last ∈ m.pairs := mem_of_getLast? hlast
    split_ifs at h with hle henforced
    · cases hmerge : last.merge p with
      | none =>
        rw [hmerge] at h
        exact h
      | some merged =>
        rw [hmerge] at h
        rcases mem_append.1 h with h | h
        · exact mem_append_left _ (mem_of_mem_dropLast h)
        · obtain rfl := mem_singleton.1 h
          rcases eq_of_merge hle hmerge with rfl | rfl
          · exact mem_append_left _ hmem
          · exact mem_append_right _ (mem_singleton_self _)
    · exact h
    · exact mem_append_left _ h

/-- In the enforced state a pair is merged into the last one or comes after it. -/
lemma increasing_appendPair (henforced : m.enforced = true) (hpairs : Increasing m.pairs)
    (hback : NoDeepStepBack (m.pairs ++ [p])) : Increasing (m.appendPair p).2 := by
  unfold appendPair
  cases hlast : m.pairs.getLast? with
  | none => exact pairwise_singleton _ _
  | some last =>
    have hsplit : m.pairs.dropLast ++ [last] = m.pairs := dropLast_append_getLast? last hlast
    dsimp only
    by_cases hle : last.seqno ≤ p.seqno
    · rw [← hsplit] at hpairs
      obtain ⟨hinit, -, hcross⟩ := pairwise_append.1 hpairs
      have hmem : ∀ q, q ∈ m.pairs → q ∈ m.pairs ++ [p] := fun q => mem_append_left _
      have hstanding : Standing (m.pairs ++ [p]) (· ∈ m.pairs.dropLast) last := by
        refine ⟨last, hmem last (mem_of_getLast? hlast), rfl, le_rfl, fun o ho => ?_⟩
        have hlater := hcross o ho last (by simp)
        exact ⟨hlater.1, hlater.2, o, hmem o (mem_of_mem_dropLast ho), rfl, le_rfl⟩
      have hnew : ∀ q ∈ [p], q ∈ m.pairs ++ [p] := fun q => mem_append_right _
      obtain ⟨hinc, hafter⟩ := increasing_mergeFrom hback hstanding hnew (by simpa using hle)
      have hresult : Increasing (m.pairs.dropLast ++ mergeFrom last [p]) :=
        pairwise_append.2 ⟨hinit, hinc, hafter⟩
      rw [if_pos hle]
      cases hmerge : last.merge p with
      | none =>
        have hpushed : m.pairs ++ [p] = m.pairs.dropLast ++ mergeFrom last [p] := by
          simp only [mergeFrom, hmerge]
          rw [append_cons m.pairs.dropLast, hsplit]
        exact hpushed ▸ hresult
      | some merged =>
        simp only [mergeFrom, hmerge] at hresult
        exact hresult
    · rw [if_neg hle, henforced]
      exact hpairs

/-! ## Queries -/

/-- The largest sequence number among the pairs that are not after the time, or none is known. -/
def IsProximalSeqno (pairs : List SeqnoTimePair) (time seqno : ℕ) : Prop :=
  IsGreatest {s | ∃ p ∈ pairs, p.time ≤ time ∧ p.seqno = s} seqno ∨
    (∀ p ∈ pairs, time < p.time) ∧ seqno = kUnknownSeqnoBeforeAll

lemma Increasing.timeAt_le (h : Increasing pairs) {i j : ℕ} (hij : i ≤ j) (hj : j < pairs.length)
    : timeAt pairs i ≤ timeAt pairs j := by
  have hi : i < pairs.length := by omega
  simp only [timeAt, getElem?_eq_getElem hi, getElem?_eq_getElem hj]
  rcases Nat.lt_or_eq_of_le hij with hlt | rfl
  · exact (pairwise_iff_getElem.1 h i j hi hj hlt).2.le
  · exact le_rfl

/-- In increasing pairs, the bisection finds the last pair that is not after the time. -/
lemma getProximalSeqnoBeforeTime_spec (h : Increasing m.pairs) (time : ℕ) :
    IsProximalSeqno m.pairs time (m.getProximalSeqnoBeforeTime time) := by
  unfold getProximalSeqnoBeforeTime findGreaterTime
  obtain ⟨stop, hstop⟩ : ∃ stop : ℕ → Bool, stop = fun i => decide (time < timeAt m.pairs i) :=
    ⟨_, rfl⟩
  have hstop_iff : ∀ i (hi : i < m.pairs.length), stop i ↔ time < m.pairs[i].time := by
    intro i hi
    rw [hstop, decide_eq_true_iff, timeAt, getElem?_eq_getElem hi]
    rfl
  have hmono : ∀ i j, 0 ≤ i → i ≤ j → j < 0 + m.pairs.length → stop i → stop j := by
    intro i j _ hij hj hi
    rw [hstop, decide_eq_true_iff] at hi ⊢
    exact hi.trans_le (h.timeAt_le hij (by omega))
  obtain ⟨-, hhi, hleft, hright⟩ := bisect_spec hmono
  rw [← hstop]
  generalize bisect stop 0 m.pairs.length = pos at hhi hleft hright
  by_cases hpos : pos = 0
  · rw [if_pos hpos]
    refine .inr ⟨fun p hp => ?_, rfl⟩
    obtain ⟨i, hi, rfl⟩ := getElem_of_mem hp
    exact (hstop_iff i hi).1 (hright i (by omega) (by omega))
  · rw [if_neg hpos]
    have hlast : pos - 1 < m.pairs.length := by omega
    have hseqno : seqnoAt m.pairs (pos - 1) = m.pairs[pos - 1].seqno := by
      rw [seqnoAt, getElem?_eq_getElem hlast]
      rfl
    rw [hseqno]
    refine .inl ⟨⟨m.pairs[pos - 1], getElem_mem hlast, ?_, rfl⟩, ?_⟩
    · exact not_lt.1 fun hlt => hleft (pos - 1) (by omega) (by omega) ((hstop_iff _ hlast).2 hlt)
    · rintro s ⟨q, hq, htime, rfl⟩
      obtain ⟨i, hi, rfl⟩ := getElem_of_mem hq
      have hlt : i < pos := by
        by_contra hge
        have hafter := (hstop_iff i hi).1 (hright i (by omega) (by omega))
        omega
      rcases Nat.lt_or_eq_of_le (show i ≤ pos - 1 by omega) with hlt' | rfl
      · exact (pairwise_iff_getElem.1 h i (pos - 1) hi hlast hlt').1.le
      · exact le_rfl

/-! ## Runs -/

/-- The operations on a mapping. -/
inductive Op
  | append (seqno time : ℕ)
  | addUnenforced (seqno time : ℕ)
  | decodeFrom (input : Bytes)
  | enforce (now : ℕ)
  | setMaxTimeSpan (span : ℕ)
  | setCapacity (capacity : ℕ)
  | clear

/-- The mapping after an operation. -/
def apply (m : SeqnoToTimeMapping) : Op → SeqnoToTimeMapping
  | .append seqno time => (m.append seqno time).2
  | .addUnenforced seqno time => m.addUnenforced seqno time
  | .decodeFrom input => (m.decodeFrom input).2
  | .enforce now => m.enforce now
  | .setMaxTimeSpan span => m.setMaxTimeSpan span
  | .setCapacity capacity => m.setCapacity capacity
  | .clear => m.clear

/-- The pairs that `Append` puts in order. -/
def pairsWith (m : SeqnoToTimeMapping) (seqno time : ℕ) : List SeqnoTimePair :=
  if seqno = 0 then m.pairs else m.pairs ++ [⟨seqno, time⟩]

/-- The operation adds no pair without a time, and the times of the pairs that it puts in order do
not go back too far. Pairs that are decoded into an empty mapping without limits are not put in
order, so they are in order. -/
def Admissible (m : SeqnoToTimeMapping) : Op → Prop
  | .append seqno time => time ≠ kUnknownTimeBeforeAll ∧ NoDeepStepBack (m.pairsWith seqno time)
  | .addUnenforced _ time => time ≠ kUnknownTimeBeforeAll
  | .decodeFrom input => ∀ pairs, decodeImpl input = .ok pairs →
      (∀ p ∈ pairs, p.time ≠ kUnknownTimeBeforeAll) ∧
        (m.pairs = [] → kUnlimited ≤ m.maxTimeSpan → kUnlimited ≤ m.capacity → Increasing pairs)
  | .enforce _ => m.enforced = false → NoDeepStepBack m.pairs
  | .setMaxTimeSpan _ | .setCapacity _ | .clear => True

/-- An operation whose input does not put the order of the mapping at risk. -/
def Step (m m' : SeqnoToTimeMapping) : Prop := ∃ op, m.Admissible op ∧ m' = m.apply op

/-- In the enforced state the pairs increase. -/
def Ordered (m : SeqnoToTimeMapping) : Prop := m.enforced = true → Increasing m.pairs

lemma increasing_limited (h : Increasing m.pairs) (now : ℕ) (strict : Bool) :
    Increasing ((m.enforceMaxTimeSpan now).enforceCapacity strict).pairs :=
  h.sublist ((pairs_enforceCapacity_sublist strict _).trans
    (pairs_enforceMaxTimeSpan_sublist now m))

lemma increasing_if_sortAndMerge (h : m.Ordered)
    (hback : m.enforced = false → NoDeepStepBack m.pairs) :
    Increasing (if m.enforced = false then m.sortAndMerge else m).pairs := by
  by_cases henforced : m.enforced = false
  · rw [if_pos henforced]
    exact increasing_sortAndMergePairs (hback henforced)
  · rw [if_neg henforced]
    exact h (Bool.eq_true_of_not_eq_false henforced)

lemma ordered_append (h : m.Ordered) {seqno time : ℕ}
    (hback : NoDeepStepBack (m.pairsWith seqno time)) : (m.append seqno time).2.Ordered := by
  unfold append
  by_cases hcapacity : m.capacity = 0
  · rw [if_pos hcapacity]
    exact h
  rw [if_neg hcapacity]
  by_cases hempty : seqno ≠ 0 ∧ m.pairs = []
  · rw [if_pos hempty]
    exact fun _ => pairwise_singleton _ _
  rw [if_neg hempty]
  obtain ⟨added, hadded⟩ : ∃ added, added =
      if seqno = 0 then (false, m.pairs) else m.appendPair ⟨seqno, time⟩ := ⟨_, rfl⟩
  have hmem : ∀ q ∈ added.2, q ∈ m.pairsWith seqno time := by
    intro q hq
    unfold pairsWith
    by_cases hseqno : seqno = 0
    · rw [hadded, if_pos hseqno] at hq
      rwa [if_pos hseqno]
    · rw [hadded, if_neg hseqno] at hq
      rw [if_neg hseqno]
      exact mem_appendPair hq
  have hordered : Ordered { m with pairs := added.2 } := by
    intro henforced
    by_cases hseqno : seqno = 0
    · rw [hadded, if_pos hseqno]
      exact h henforced
    · rw [pairsWith, if_neg hseqno] at hback
      rw [hadded, if_neg hseqno]
      exact increasing_appendPair henforced (h henforced) hback
  dsimp only
  rw [← hadded]
  exact fun _ => increasing_limited (increasing_if_sortAndMerge hordered
    fun _ => hback.subset hmem) 0 false

lemma ordered_enforce (h : m.Ordered) (now : ℕ)
    (hback : m.enforced = false → NoDeepStepBack m.pairs) : (m.enforce now).Ordered := by
  intro _
  refine Pairwise.sublist (pairs_enforceCapacity_sublist true _) ?_
  by_cases henforced : m.enforced = false
  · rw [if_pos henforced]
    exact (increasing_sortAndMergePairs (hback henforced)).sublist
      (pairs_enforceMaxTimeSpan_sublist now m.sortAndMerge)
  · have hinc := h (Bool.eq_true_of_not_eq_false henforced)
    rw [if_neg henforced]
    split_ifs
    · exact hinc.sublist (pairs_enforceMaxTimeSpan_sublist now m)
    · exact hinc

lemma ordered_decodeFrom (h : m.Ordered) (input : Bytes)
    (hinput : ∀ pairs, decodeImpl input = .ok pairs →
      m.pairs = [] → kUnlimited ≤ m.maxTimeSpan → kUnlimited ≤ m.capacity → Increasing pairs) :
    (m.decodeFrom input).2.Ordered := by
  unfold decodeFrom
  cases hdecode : decodeImpl input with
  | error message => exact h
  | ok pairs =>
    intro henforced
    dsimp only at henforced ⊢
    split_ifs at henforced with hlimits
    rw [not_or, not_or, not_lt, not_lt, not_lt, Nat.le_zero, length_eq_zero_iff] at hlimits
    rw [hlimits.1, nil_append]
    exact hinput pairs hdecode hlimits.1 hlimits.2.1 hlimits.2.2

lemma Step.ordered {m' : SeqnoToTimeMapping} (hstep : Step m m') (h : m.Ordered) : m'.Ordered := by
  obtain ⟨op, hop, rfl⟩ := hstep
  cases op with
  | append seqno time => exact ordered_append h hop.2
  | addUnenforced seqno time =>
    show (m.addUnenforced seqno time).Ordered
    unfold addUnenforced
    split_ifs
    · exact h
    · exact fun henforced => absurd henforced (by simp)
  | decodeFrom input => exact ordered_decodeFrom h input fun pairs hdecode => (hop pairs hdecode).2
  | enforce now => exact ordered_enforce h now hop
  | setMaxTimeSpan span =>
    show (m.setMaxTimeSpan span).Ordered
    unfold setMaxTimeSpan
    dsimp only
    split_ifs with henforced
    · exact fun _ => (h henforced).sublist (pairs_enforceMaxTimeSpan_sublist 0 _)
    · exact fun h' => absurd h' henforced
  | setCapacity capacity =>
    show (m.setCapacity capacity).Ordered
    unfold setCapacity
    dsimp only
    split_ifs with henforced
    · exact fun _ => (h henforced).sublist (pairs_enforceCapacity_sublist true _)
    · exact fun h' => absurd h' henforced
  | clear => exact fun _ => .nil

/-- Along every run of admissible operations from an empty mapping, the pairs increase in both
components whenever the mapping is enforced, and a query returns the largest sequence number among
the pairs that are not after the time. -/
theorem increasing_of_run {m : SeqnoToTimeMapping} (hrun : Relation.ReflTransGen Step {} m)
    (henforced : m.enforced = true) : Increasing m.pairs ∧
      ∀ time, IsProximalSeqno m.pairs time (m.getProximalSeqnoBeforeTime time) := by
  have hordered : m.Ordered := by
    clear henforced
    induction hrun with
    | refl => exact fun _ => .nil
    | tail _ hstep ih => exact hstep.ordered ih
  exact ⟨hordered henforced, getProximalSeqnoBeforeTime_spec (hordered henforced)⟩

/-- The clock steps back from 200 to 150. -/
theorem increasing_of_run_stepped_back : Increasing [⟨1, 100⟩, ⟨3, 150⟩] ∧
      IsProximalSeqno [⟨1, 100⟩, ⟨3, 150⟩] 160
        (getProximalSeqnoBeforeTime { pairs := [⟨1, 100⟩, ⟨3, 150⟩] } 160) := by
  have hrun : Relation.ReflTransGen Step {} { pairs := [⟨1, 100⟩, ⟨3, 150⟩] } := by
    refine .tail (.tail (.tail .refl ⟨.append 1 100, ⟨by decide, by decide⟩, rfl⟩)
      ⟨.append 2 200, ⟨by decide, by decide⟩, rfl⟩)
      ⟨.append 3 150, ⟨by decide, by decide⟩, by decide +kernel⟩
  obtain ⟨hinc, hquery⟩ := increasing_of_run hrun rfl
  exact ⟨hinc, hquery 160⟩

/-- The clock steps back from 300 to 150, before the time of the second pair. Nothing written by the
time 160 is known after the sequence number 1 then, though the pair of 4 is recorded. -/
theorem append_after_deep_step_back :
    let m := [((1, 100) : ℕ × ℕ), (2, 200), (3, 300), (4, 150)].foldl
      (fun m p => (append p.1 p.2 m).2) {}
    m.enforced = true ∧ m.pairs = [⟨1, 100⟩, ⟨2, 200⟩, ⟨4, 150⟩] ∧ ¬ Increasing m.pairs ∧
      m.getProximalSeqnoBeforeTime 160 = 1 := by
  decide +kernel

/-- Pairs decoded into an empty mapping without limits are not put in order by `Enforce`. -/
example : (enforce 0 (decodeFrom [2, 1, 5, 0, 0] {}).2).pairs = [⟨1, 5⟩, ⟨1, 5⟩] := by
  decide +kernel

end BucketLSM.SeqnoToTimeMapping
