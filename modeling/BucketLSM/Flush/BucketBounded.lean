import BucketLSM.Bucket.Partition
import BucketLSM.Format
import Mathlib

/-!
# The iterator of a bucket

`BucketBoundedIterator` in `db/flush_job.cc` reads the entries of one bucket from the merged
memtables of a flush. It is positioned by the comparator of the column family and stops by the bytes
of the keys, as `FindBucketInSnapshot` compares them. It reads the entries that are assigned to its
bucket exactly when they follow the lower bound of the bucket, in the order of the comparator,
before any other entry does.
-/

namespace BucketLSM

open List InternalKey

/-! ## Runs of a list -/

section Runs

variable {α : Type*} {p s : α → Bool} {l : List α}

section

variable {lt : α → α → Prop} (hl : l.Pairwise lt)

include hl

lemma mem_takeWhile_iff (hirrefl : ∀ a, ¬ lt a a) (hasymm : ∀ a b, lt a b → ¬ lt b a) (x : α) :
    x ∈ l.takeWhile p ↔ x ∈ l ∧ ∀ y ∈ l, ¬ lt x y → p y := by
  induction l with
  | nil => simp
  | cons a l ih =>
    obtain ⟨hhead, htail⟩ := pairwise_cons.1 hl
    have hxa (hx : x ∈ a :: l) : ¬ lt x a := by
      rcases mem_cons.1 hx with rfl | hx
      · exact hirrefl x
      · exact hasymm a x (hhead x hx)
    rw [takeWhile_cons]
    split_ifs with hpa
    · rw [mem_cons, mem_cons, ih htail, forall_mem_cons]
      constructor
      · rintro (rfl | ⟨hx, hp⟩)
        · exact ⟨.inl rfl, fun _ => hpa, fun y hy hlt => absurd (hhead y hy) hlt⟩
        · exact ⟨.inr hx, fun _ => hpa, hp⟩
      · rintro ⟨hx, -, hp⟩
        exact hx.imp_right fun hx => ⟨hx, hp⟩
    · exact ⟨fun h => absurd h not_mem_nil, fun h => absurd (h.2 a mem_cons_self (hxa h.1)) hpa⟩

lemma dropWhile_eq_filter (hs : ∀ a b, lt a b → s a → s b) :
    (l.dropWhile fun a => !s a) = l.filter s := by
  induction l with
  | nil => rfl
  | cons a l ih =>
    obtain ⟨hhead, htail⟩ := pairwise_cons.1 hl
    by_cases hsa : s a
    · have hall : l.filter s = l := filter_eq_self.2 fun b hb => hs a b (hhead b hb) hsa
      simp [hsa, hall]
    · simp [hsa, ih htail]

/-- In a list along which `s` stays true, the elements read from the first one with `s` on until `p`
fails are those with `s` up to which `p` does not fail. -/
lemma mem_takeWhile_dropWhile_iff (hirrefl : ∀ a, ¬ lt a a) (hasymm : ∀ a b, lt a b → ¬ lt b a)
    (hs : ∀ a b, lt a b → s a → s b) (x : α) : x ∈ (l.dropWhile fun a => !s a).takeWhile p ↔
      x ∈ l ∧ s x ∧ ∀ y ∈ l, s y → ¬ lt x y → p y := by
  rw [dropWhile_eq_filter hl hs, mem_takeWhile_iff (hl.filter s) hirrefl hasymm]
  simp only [mem_filter, and_imp, and_assoc]

end

lemma dropWhile_congr {q : α → Bool} (h : ∀ a ∈ l, p a = q a) : l.dropWhile p = l.dropWhile q := by
  induction l with
  | nil => rfl
  | cons a l ih =>
    rw [dropWhile_cons, dropWhile_cons, h a (by simp),
      ih fun b hb => h b (mem_cons_of_mem a hb)]

/-- A part of a list without repetitions is what `filter` leaves of it, if it has the same
elements. -/
lemma eq_filter_of_sublist {q : α → Bool} {l' : List α} (hl : l.Nodup) (hsub : l'.Sublist l)
    (h : ∀ x ∈ l, x ∈ l' ↔ q x) : l' = l.filter q := by
  induction hsub with
  | slnil => rfl
  | @cons l' l a hsub ih =>
    obtain ⟨ha, hl⟩ := nodup_cons.1 hl
    have hout : ¬ q a := fun hq => ha (hsub.subset ((h a (by simp)).2 hq))
    rw [filter_cons_of_neg hout]
    exact ih hl fun x hx => h x (mem_cons_of_mem a hx)
  | @cons_cons l' l a hsub ih =>
    obtain ⟨ha, hl⟩ := nodup_cons.1 hl
    rw [filter_cons_of_pos ((h a (by simp)).1 (by simp))]
    refine congrArg (a :: ·) (ih hl fun x hx => ?_)
    have hne : x ≠ a := fun heq => ha (heq ▸ hx)
    rw [← h x (mem_cons_of_mem a hx), mem_cons, or_iff_right hne]

end Runs

/-! ## The iterator -/

variable {K V : Type} [LinearOrder K]

/-- The entries that `NewMergingIterator` reads from the memtables of a flush. -/
structure MergedMemTables (K V : Type) [LinearOrder K] where
  entries : List (InternalKey K × V)
  sorted : entries.Pairwise fun a b => a.1 < b.1
  stored : ∀ e ∈ entries, e.1.sequence ≤ maxSequenceNumber ∧ e.1.type ≠ .maxValid

/-- `BucketBoundedIterator`. `rest` is what `iter_` has before it, its current entry first. -/
structure BucketBoundedIterator (K V : Type) [LinearOrder K] where
  tables : MergedMemTables K V
  rest : List (InternalKey K × V)
  minKey : Slice
  maxKey : Slice

namespace BucketBoundedIterator

/-- The iterator of a range, as `BuildTable` gets it. -/
def ofRange (tables : MergedMemTables K V) (range : Slice × Slice) : BucketBoundedIterator K V :=
  ⟨tables, [], range.1, range.2⟩

/-- The first internal key of a user key. -/
def seekKey (userKey : K) : InternalKey K := ⟨userKey, maxSequenceNumber, .valuePreferredSeqno⟩

section Comparator

-- the user keys in the order of the comparator, and the bytes they are stored as
variable (bytes : K ≃ Slice) (it : BucketBoundedIterator K V)

/-- `SeekToFirst`. -/
def seekToFirst : BucketBoundedIterator K V :=
  if it.minKey = [] then { it with rest := it.tables.entries }
  else { it with rest := it.tables.entries.dropWhile fun e => e.1 < seekKey (bytes.symm it.minKey) }

/-- `Next`. -/
def next : BucketBoundedIterator K V := { it with rest := it.rest.tail }

/-- `Valid`. -/
def valid : Bool :=
  match it.rest with
  | [] => false
  | e :: _ =>
    if it.maxKey ≠ [] ∧ it.maxKey ≤ bytes e.1.userKey then false
    else if it.minKey ≠ [] ∧ bytes e.1.userKey < it.minKey then false
    else true

/-- The entries read by `Next` until `Valid` is false. -/
def readAll (it : BucketBoundedIterator K V) : List (InternalKey K × V) :=
  match _h : it.rest with
  | [] => []
  | e :: _ => if it.valid bytes then e :: readAll it.next else []
termination_by it.rest.length
decreasing_by simp [next, _h]

/-! ## What it reads -/

lemma valid_cons {e : InternalKey K × V} {rest : List (InternalKey K × V)}
    (h : it.rest = e :: rest) :
    it.valid bytes = rangeContains (it.minKey, it.maxKey) (bytes e.1.userKey) := by
  rw [Bool.eq_iff_iff, rangeContains_iff]
  unfold valid
  rw [h]
  simp only
  split_ifs with hmax hmin
  · exact iff_of_false (by simp) fun hc => hc.2.elim hmax.1 fun hlt => not_le.2 hlt hmax.2
  · exact iff_of_false (by simp) fun hc => hc.1.elim hmin.1 fun hle => not_le.2 hmin.2 hle
  · refine iff_of_true rfl ⟨?_, ?_⟩
    · exact or_iff_not_imp_left.2 fun hne => not_lt.1 fun hlt => hmin ⟨hne, hlt⟩
    · exact or_iff_not_imp_left.2 fun hne => not_le.1 fun hle => hmax ⟨hne, hle⟩

lemma readAll_eq_takeWhile : it.readAll bytes =
    it.rest.takeWhile fun e => rangeContains (it.minKey, it.maxKey) (bytes e.1.userKey) := by
  obtain ⟨rest, hrest⟩ : ∃ rest, it.rest = rest := ⟨_, rfl⟩
  induction rest generalizing it with
  | nil =>
    rw [readAll, hrest]
    split <;> simp_all
  | cons e rest ih =>
    have hnext : it.next.rest = rest := by rw [next, hrest, tail_cons]
    have hread : it.readAll bytes = if it.valid bytes then e :: it.next.readAll bytes else [] := by
      rw [readAll]
      split
      · rename_i h
        exact absurd (h.symm.trans hrest) (by simp)
      · rename_i e' rest' h
        obtain ⟨rfl, rfl⟩ := cons.inj (h.symm.trans hrest)
        rfl
    rw [hread, valid_cons bytes it hrest, ih it.next hnext, hnext, hrest, takeWhile_cons]
    rfl

/-- In the order of the comparator, the key comes at or after the lower bound of the range. -/
def AtOrAfter (minKey : Slice) (userKey : K) : Prop := minKey = [] ∨ bytes.symm minKey ≤ userKey

instance (minKey : Slice) (userKey : K) : Decidable (AtOrAfter bytes minKey userKey) :=
  inferInstanceAs (Decidable (_ ∨ _))

lemma AtOrAfter.trans {bytes : K ≃ Slice} {minKey : Slice} {a b : K}
    (h : AtOrAfter bytes minKey a) (hab : a ≤ b) : AtOrAfter bytes minKey b :=
  h.imp_right fun hle => hle.trans hab

/-- A stored key comes before the first internal key of a user key only if its user key does. -/
lemma lt_seekKey_iff {e : InternalKey K} (hseq : e.sequence ≤ maxSequenceNumber)
    (htype : e.type ≠ .maxValid) (userKey : K) : e < seekKey userKey ↔ e.userKey < userKey := by
  have hcode : e.type.code ≤ ValueType.valuePreferredSeqno.code := by
    cases ht : e.type with
    | maxValid => exact absurd ht htype
    | _ => decide
  have hfooter : e.footer ≤ (seekKey userKey).footer := by
    have hmul := Nat.mul_le_mul_right 256 hseq
    exact Nat.add_le_add hmul hcode
  rw [lt_iff]
  exact or_iff_left fun h => absurd h.2 (not_lt.2 hfooter)

lemma rest_seekToFirst : (it.seekToFirst bytes).rest =
    it.tables.entries.dropWhile fun e => !decide (AtOrAfter bytes it.minKey e.1.userKey) := by
  unfold seekToFirst
  by_cases hmin : it.minKey = []
  · rw [if_pos hmin]
    have hall : ∀ k : K, AtOrAfter bytes it.minKey k := fun k => .inl hmin
    cases hentries : it.tables.entries with
    | nil => rfl
    | cons e entries => exact (dropWhile_cons_of_neg (by simp [hall])).symm
  · rw [if_neg hmin]
    refine dropWhile_congr fun e he => ?_
    rw [Bool.eq_iff_iff, decide_eq_true_iff, lt_seekKey_iff (it.tables.stored e he).1
      (it.tables.stored e he).2, Bool.not_eq_true', decide_eq_false_iff_not, AtOrAfter,
      or_iff_right hmin, not_le]

/-- The entry is assigned to bucket `i`. -/
def Assigned (snap : BucketSnapshot) (i : ℕ) (e : InternalKey K × V) : Prop :=
  findBucketInSnapshot snap (bytes e.1.userKey) = i

instance (snap : BucketSnapshot) (i : ℕ) (e : InternalKey K × V) :
    Decidable (Assigned bytes snap i e) := inferInstanceAs (Decidable (_ = _))

/-- In the order of the comparator, all entries from the lower bound of the bucket up to this one
have their bytes in its range. -/
def Unbroken (tables : MergedMemTables K V) (range : Slice × Slice) (e : InternalKey K × V) :
    Prop :=
  ∀ e' ∈ tables.entries, AtOrAfter bytes range.1 e'.1.userKey → e'.1.userKey ≤ e.1.userKey →
    rangeContains range (bytes e'.1.userKey)

/-- The entries assigned to the bucket follow its lower bound in one run, in the order of the
comparator, and no other entry is in that run. -/
structure InOneRun (tables : MergedMemTables K V) (snap : BucketSnapshot)
    (i : Fin snap.ranges.length) : Prop where
  reached : ∀ e ∈ tables.entries, Assigned bytes snap i e →
    AtOrAfter bytes (snap.ranges.get i).1 e.1.userKey ∧ Unbroken bytes tables (snap.ranges.get i) e
  apart : ∀ e ∈ tables.entries, ¬ Assigned bytes snap i e →
    AtOrAfter bytes (snap.ranges.get i).1 e.1.userKey →
      ¬ Unbroken bytes tables (snap.ranges.get i) e

/-- The iterator reads the entries at or after the lower bound up to which the run is unbroken. -/
lemma mem_readAll_iff (tables : MergedMemTables K V) (range : Slice × Slice)
    (e : InternalKey K × V) : e ∈ ((ofRange tables range).seekToFirst bytes).readAll bytes ↔
      e ∈ tables.entries ∧ AtOrAfter bytes range.1 e.1.userKey ∧ Unbroken bytes tables range e := by
  rw [readAll_eq_takeWhile, rest_seekToFirst]
  have hmin : ((ofRange tables range).seekToFirst bytes).minKey = range.1 := by
    unfold seekToFirst
    split_ifs <;> rfl
  have hmax : ((ofRange tables range).seekToFirst bytes).maxKey = range.2 := by
    unfold seekToFirst
    split_ifs <;> rfl
  have hclosed : ∀ a b : InternalKey K × V, a.1 < b.1 →
      decide (AtOrAfter bytes range.1 a.1.userKey) →
        decide (AtOrAfter bytes range.1 b.1.userKey) := by
    intro a b hlt ha
    exact decide_eq_true ((of_decide_eq_true ha).trans (userKey_le hlt.le))
  rw [hmin, hmax]
  refine (mem_takeWhile_dropWhile_iff (s := fun e => decide (AtOrAfter bytes range.1 e.1.userKey))
    tables.sorted (fun _ => lt_irrefl _) (fun _ _ h => h.not_gt) hclosed e).trans ?_
  refine and_congr_right fun he => ?_
  rw [decide_eq_true_iff]
  refine and_congr_right fun hafter =>
    ⟨fun h e' he' hafter' hle => ?_, fun h e' he' hafter' hlt => ?_⟩
  · -- a later version of the same user key has the same bytes
    by_cases hlt : e.1 < e'.1
    · have heq : e'.1.userKey = e.1.userKey := le_antisymm hle (userKey_le hlt.le)
      rw [heq]
      exact h e he (decide_eq_true hafter) (lt_irrefl _)
    · exact h e' he' (decide_eq_true hafter') hlt
  · exact h e' he' (of_decide_eq_true hafter') (userKey_le (not_lt.1 hlt))

/-- For every comparator, snapshot and memtables, the iterator of a bucket reads exactly the entries
that are assigned to the bucket iff these are in one run. -/
theorem readAll_eq_assigned_iff (tables : MergedMemTables K V) (snap : BucketSnapshot)
    (i : Fin snap.ranges.length) :
    ((ofRange tables (snap.ranges.get i)).seekToFirst bytes).readAll bytes =
        tables.entries.filter (fun e => decide (Assigned bytes snap i e)) ↔
      InOneRun bytes tables snap i := by
  constructor
  · intro h
    have hmem : ∀ e ∈ tables.entries, Assigned bytes snap i e ↔
        AtOrAfter bytes (snap.ranges.get i).1 e.1.userKey ∧
          Unbroken bytes tables (snap.ranges.get i) e := by
      intro e he
      have hread := mem_readAll_iff bytes tables (snap.ranges.get i) e
      rw [h, mem_filter, decide_eq_true_iff, and_congr_right_iff] at hread
      exact hread he
    exact ⟨fun e he ha => (hmem e he).1 ha,
      fun e he hna hafter hu => hna ((hmem e he).2 ⟨hafter, hu⟩)⟩
  · intro h
    refine eq_filter_of_sublist (tables.sorted.imp fun hlt heq => ?_) ?_ fun e he => ?_
    · exact lt_irrefl _ (heq ▸ hlt)
    · rw [readAll_eq_takeWhile, rest_seekToFirst]
      exact (takeWhile_sublist _).trans (dropWhile_sublist _)
    · rw [mem_readAll_iff, and_iff_right he, decide_eq_true_iff]
      refine ⟨fun hread => ?_, h.reached e he⟩
      by_contra hna
      exact h.apart e he hna hread.1 hread.2

/-- A comparator that orders keys by their bytes keeps the entries of every bucket of a partition in
one run. -/
lemma inOneRun_of_bytewise (hbytes : ∀ a b, a ≤ b ↔ bytes a ≤ bytes b)
    (tables : MergedMemTables K V) {snap : BucketSnapshot} (hsnap : Partitions snap.ranges)
    (i : Fin snap.ranges.length) : InOneRun bytes tables snap i := by
  have hafter : ∀ k, AtOrAfter bytes (snap.ranges.get i).1 k ↔
      (snap.ranges.get i).1 = [] ∨ (snap.ranges.get i).1 ≤ bytes k := by
    intro k
    rw [AtOrAfter, hbytes, Equiv.apply_symm_apply]
  have hassigned : ∀ e : InternalKey K × V,
      Assigned bytes snap i e ↔ rangeContains (snap.ranges.get i) (bytes e.1.userKey) := by
    intro e
    obtain ⟨j, hj, huniq⟩ := hsnap.firstContaining (bytes e.1.userKey)
    have hfind : findBucketInSnapshot snap (bytes e.1.userKey) = j := by
      rw [findBucketInSnapshot, hj]
    have hcontains := huniq i
    rw [ContainsAt, getElem?_eq_getElem i.isLt] at hcontains
    rw [Assigned, hfind, Nat.cast_inj, eq_comm, ← hcontains]
    simp
  constructor
  · intro e _ he
    obtain ⟨hlo, hhi⟩ := (rangeContains_iff _ _).1 ((hassigned e).1 he)
    refine ⟨(hafter _).2 hlo, fun e' _ hlo' hle =>
      (rangeContains_iff _ _).2 ⟨(hafter _).1 hlo', ?_⟩⟩
    exact hhi.imp_right fun hlt => ((hbytes _ _).1 hle).trans_lt hlt
  · intro e he hna hlo hunbroken
    exact hna ((hassigned e).2 (hunbroken e he hlo le_rfl))

/-- **Bucket flushes lose nothing.** With such a comparator, what the memtables hold is what the
iterators of the buckets read, each entry in one bucket. -/
theorem mem_entries_iff_existsUnique (hbytes : ∀ a b, a ≤ b ↔ bytes a ≤ bytes b)
    (tables : MergedMemTables K V) {snap : BucketSnapshot} (hsnap : Partitions snap.ranges)
    (e : InternalKey K × V) : e ∈ tables.entries ↔ ∃! i : Fin snap.ranges.length,
      e ∈ ((ofRange tables (snap.ranges.get i)).seekToFirst bytes).readAll bytes := by
  obtain ⟨j, hj, huniq⟩ := hsnap.firstContaining (bytes e.1.userKey)
  obtain ⟨r, hr, -⟩ := (huniq j).2 rfl
  have hlt : j < snap.ranges.length := (List.getElem?_eq_some_iff.1 hr).1
  have hread (i : Fin snap.ranges.length) :
      e ∈ ((ofRange tables (snap.ranges.get i)).seekToFirst bytes).readAll bytes ↔
        e ∈ tables.entries ∧ i = ⟨j, hlt⟩ := by
    have hassigned : Assigned bytes snap i e ↔ i = ⟨j, hlt⟩ := by
      rw [Assigned, findBucketInSnapshot, hj, Nat.cast_inj, Fin.ext_iff, eq_comm]
    have hrun := inOneRun_of_bytewise bytes hbytes tables hsnap i
    rw [mem_readAll_iff, ← hassigned]
    refine and_congr_right fun he => ⟨fun hread => ?_, hrun.reached e he⟩
    by_contra hna
    exact hrun.apart e he hna hread.1 hread.2
  simp only [hread]
  refine ⟨fun he => ⟨_, ⟨he, rfl⟩, fun i hi => hi.2⟩, ?_⟩
  rintro ⟨i, hi, -⟩
  exact hi.1

end Comparator

/-- Two keys in the order of the reverse bytewise comparator. -/
def reversedTables : MergedMemTables Sliceᵒᵈ Unit where
  entries := [(⟨OrderDual.toDual [122], 2, .value⟩, ()), (⟨OrderDual.toDual [97], 1, .value⟩, ())]
  sorted := by decide
  stored := by decide

/-- Two buckets that partition the key space, with the boundary 109. -/
def halves : BucketSnapshot := ⟨0, [([], [109]), ([109], [])]⟩

/-- Keys of both halves, one of them with two versions. -/
def orderedTables : MergedMemTables Slice Unit where
  entries := [(⟨[97], 3, .value⟩, ()), (⟨[97], 1, .value⟩, ()), (⟨[122], 2, .value⟩, ())]
  sorted := by decide
  stored := by decide

/-- An entry of each half is read from one bucket. -/
theorem mem_entries_iff_existsUnique_halves :
    (∃! i : Fin halves.ranges.length, (⟨[97], 1, .value⟩, ()) ∈ ((ofRange orderedTables
      (halves.ranges.get i)).seekToFirst (Equiv.refl _)).readAll (Equiv.refl _)) ∧
    ∃! i : Fin halves.ranges.length, (⟨[122], 2, .value⟩, ()) ∈ ((ofRange orderedTables
      (halves.ranges.get i)).seekToFirst (Equiv.refl _)).readAll (Equiv.refl _) := by
  have hpart : Partitions halves.ranges :=
    (Tiled.cons (by decide) (.inl rfl) (.last _)).partitions
  exact ⟨(mem_entries_iff_existsUnique _ (fun _ _ => Iff.rfl) _ hpart _).1
      (by simp [orderedTables]),
    (mem_entries_iff_existsUnique _ (fun _ _ => Iff.rfl) _ hpart _).1 (by simp [orderedTables])⟩

/-- Under the reverse bytewise comparator both buckets have an entry, and neither iterator reads
one. -/
theorem reverse_comparator_reads_nothing :
    Partitions halves.ranges ∧ ∀ i : Fin halves.ranges.length,
      ((ofRange reversedTables (halves.ranges.get i)).seekToFirst OrderDual.ofDual).readAll
          OrderDual.ofDual = [] ∧ reversedTables.entries.filter
          (fun e => decide (Assigned OrderDual.ofDual halves i e)) ≠ [] := by
  have hhalves : Tiled [] halves.ranges := .cons (by decide) (.inl rfl) (.last _)
  exact ⟨hhalves.partitions, by decide +kernel⟩

end BucketBoundedIterator

end BucketLSM
