import BucketLSM.Bucket.Manager

/-!
# Midpoints of key ranges

`ComputeMidpointKey` is the last resort of `SplitBucket`, and nothing checks its answer.
This module says for which ranges the answer lies inside the range.
-/

namespace BucketLSM

open List

/-! ## Lexicographic order -/

lemma append_lt_append_iff (t a b : Slice) : t ++ a < t ++ b ↔ a < b := by
  induction t with
  | nil => rfl
  | cons x t ih => simp [ih]

lemma lt_append_singleton (a : Slice) (x : Byte) : a < a ++ [x] := by
  have h := (append_lt_append_iff a [] [x]).2 (nil_lt_cons x [])
  simpa using h

lemma append_cons_lt_append_cons (t a b : Slice) {x y : Byte} (h : x < y) :
    t ++ x :: a < t ++ y :: b := by
  rw [append_lt_append_iff, cons_lt_cons_iff]
  exact .inl h

variable {a b : Slice}

lemma firstDivergence_of_le (h : a ≤ b) (copied : Slice) :
    (∃ t x y a' b', firstDivergence copied a b = some (copied ++ t, x, y) ∧
      a = t ++ x :: a' ∧ b = t ++ y :: b' ∧ x < y) ∨
    (firstDivergence copied a b = none ∧ ∃ t, b = a ++ t) := by
  induction a generalizing b copied with
  | nil => exact .inr ⟨by cases b <;> rfl, b, rfl⟩
  | cons x a ih =>
    cases b with
    | nil => exact absurd (nil_lt_cons x a) (not_lt.2 h)
    | cons y b =>
      by_cases hxy : x < y
      · exact .inl ⟨[], x, y, a, b, by simp [firstDivergence, hxy], rfl, rfl, hxy⟩
      · -- the heads agree, so the tails decide
        have hle : x = y ∧ a ≤ b := by
          have h' := not_lt.2 h
          rw [cons_lt_cons_iff, not_or] at h'
          have hyx : y = x := le_antisymm (not_lt.1 hxy) (not_lt.1 h'.1)
          exact ⟨hyx.symm, not_lt.1 fun hlt => h'.2 ⟨hyx, hlt⟩⟩
        obtain ⟨rfl, hab⟩ := hle
        have hstep : firstDivergence copied (x :: a) (x :: b) =
            firstDivergence (copied ++ [x]) a b := by simp [firstDivergence]
        rcases ih hab (copied ++ [x]) with ⟨t, u, v, a', b', heq, ha, hb, huv⟩ | ⟨heq, t, ht⟩
        · exact .inl ⟨x :: t, u, v, a', b', by simp [hstep, heq], by simp [ha], by simp [hb], huv⟩
        · exact .inr ⟨by rw [hstep, heq], t, by simp [ht]⟩


/-! ## Midpoints -/

/-- The ranges `[lo, hi)` that `ComputeMidpointKey` can divide: a range that starts at `-∞`
and does not end at a key with a leading zero byte, or one that starts at a key and does
not end at that key or at its immediate successor. -/
def Divisible (lo hi : Slice) : Prop :=
  if lo = [] then hi.head? ≠ some 0 else hi ≠ lo ∧ hi ≠ lo ++ [0]

instance (lo hi : Slice) : Decidable (Divisible lo hi) := by
  unfold Divisible
  infer_instance

lemma computeMidpointKey_nil_cons (y : Byte) (b : Slice) :
    computeMidpointKey [] (y :: b) = if 1 < y.signed then [y - 1] else [1] := by
  simp [computeMidpointKey]

lemma signed_sub_one_lt (y : Byte) (h : 1 < y.signed) : y - 1 < y := by
  have hy : y ≠ 0 := by rintro rfl; exact absurd h (by decide)
  exact Fin.sub_one_lt_iff.2 (Fin.pos_of_ne_zero hy)

lemma computeMidpointKey_nil_lt_iff (y : Byte) (b : Slice) :
    computeMidpointKey [] (y :: b) < y :: b ↔ y ≠ 0 ∧ ¬ (y = 1 ∧ b = []) := by
  rw [computeMidpointKey_nil_cons]
  split_ifs with hy
  · have hlt : [y - 1] < y :: b := cons_lt_cons_iff.2 (.inl (signed_sub_one_lt y hy))
    have hne : y ≠ 0 ∧ y ≠ 1 := by constructor <;> rintro rfl <;> exact absurd hy (by decide)
    simp [hlt, hne]
  · rw [cons_lt_cons_iff]
    by_cases h0 : y = 0
    · simp [h0]
    · by_cases h1 : y = 1
      · cases b <;> simp [h1]
      · have hlt : 1 < y := lt_of_le_of_ne (Fin.one_le_of_ne_zero h0) (Ne.symm h1)
        simp [h0, h1, hlt]

/-- Between `-∞` and a key, the midpoint is at most the key unless it starts with a zero. -/
lemma computeMidpointKey_nil_le_iff (hb : b ≠ []) :
    computeMidpointKey [] b ≤ b ↔ b.head? ≠ some 0 := by
  obtain ⟨y, b, rfl⟩ := exists_cons_of_ne_nil hb
  rw [le_iff_lt_or_eq, computeMidpointKey_nil_lt_iff]
  by_cases hone : y = 1 ∧ b = []
  · obtain ⟨rfl, rfl⟩ := hone
    decide
  · by_cases hy : y = 0
    · simp [hy, computeMidpointKey_nil_cons, Byte.signed]
    · simp [hy, hone]

/-- Two keys `a ≤ b` have a midpoint strictly between them, unless `b` is `a` or its
immediate successor, where the fallback `a ++ [128]` is returned. -/
lemma computeMidpointKey_cases (ha : a ≠ []) (hb : b ≠ []) (hab : a ≤ b) :
    (a < computeMidpointKey a b ∧ computeMidpointKey a b < b ∧ Divisible a b) ∨
    (computeMidpointKey a b = a ++ [128] ∧ (b = a ∨ b = a ++ [0])) := by
  have hdiv : Divisible a b ↔ b ≠ a ∧ b ≠ a ++ [0] := by simp [Divisible, ha]
  rcases firstDivergence_of_le hab [] with ⟨t, x, y, a', b', heq, rfl, rfl, hxy⟩ | ⟨heq, t, rfl⟩
  · -- the keys differ at some byte: both candidates lie strictly between
    left
    have hfall : t ++ x :: a' ++ [128] < t ++ y :: b' := by
      simpa using append_cons_lt_append_cons t (a' ++ [128]) b' hxy
    have hne : t ++ y :: b' ≠ t ++ x :: a' ∧ t ++ y :: b' ≠ t ++ x :: a' ++ [0] := by
      constructor <;> simp [hxy.ne']
    refine and_assoc.1 ⟨?_, hdiv.2 hne⟩
    simp only [computeMidpointKey, ha, hb, heq, decide_false, Bool.false_and, Bool.false_eq_true,
      if_false, nil_append]
    split
    · rename_i h
      simpa using h
    · exact ⟨lt_append_singleton _ _, hfall⟩
  · cases t with
    | nil =>
      refine .inr ⟨?_, .inl (by simp)⟩
      rw [append_nil] at heq
      simp [computeMidpointKey, ha, heq]
    | cons y t =>
      by_cases hyt : y = 0 ∧ t = []
      · obtain ⟨rfl, rfl⟩ := hyt
        refine .inr ⟨?_, .inr rfl⟩
        simp [computeMidpointKey, ha, heq]
      · -- `a` followed by half of the next byte of `b`
        left
        have hlt : a ++ [⟨y.val / 2, by omega⟩] < a ++ y :: t := by
          rw [append_lt_append_iff, cons_lt_cons_iff]
          by_cases hy : y = 0
          · subst hy
            have ht : t ≠ [] := fun h => hyt ⟨rfl, h⟩
            refine .inr ⟨rfl, ?_⟩
            cases t with
            | nil => exact absurd rfl ht
            | cons z t => exact nil_lt_cons z t
          · refine .inl (Fin.lt_def.2 ?_)
            have : y.val ≠ 0 := fun h => hy (Fin.ext h)
            show y.val / 2 < y.val
            omega
        have hgt := lt_append_singleton a ⟨y.val / 2, by omega⟩
        have hmid : computeMidpointKey a (a ++ y :: t) = a ++ [⟨y.val / 2, by omega⟩] := by
          simp [computeMidpointKey, ha, heq, hlt, hgt]
        rw [hmid, hdiv]
        refine ⟨hgt, hlt, by simp, ?_⟩
        simpa using fun h => not_and.1 hyt h

lemma computeMidpointKey_ne_nil (a b : Slice) : computeMidpointKey a b ≠ [] := by
  unfold computeMidpointKey
  dsimp only
  split_ifs <;> (try split) <;> (try split_ifs) <;> (try split) <;> (try split_ifs) <;> simp

/-- The midpoint never lies below the range. -/
lemma lt_computeMidpointKey (ha : a ≠ []) (hab : b = [] ∨ a ≤ b) : a < computeMidpointKey a b := by
  by_cases hb : b = []
  · simpa [computeMidpointKey, ha, hb] using lt_append_singleton a 128
  · rcases computeMidpointKey_cases ha hb (hab.resolve_left hb) with h | ⟨h, -⟩
    · exact h.1
    · rw [h]
      exact lt_append_singleton a 128

/-- The midpoint stays within the range exactly when the range is divisible. -/
lemma computeMidpointKey_le_iff (hb : b ≠ []) (hab : a = [] ∨ a ≤ b) :
    computeMidpointKey a b ≤ b ↔ Divisible a b := by
  by_cases ha : a = []
  · subst ha
    simpa [Divisible] using computeMidpointKey_nil_le_iff hb
  · rcases computeMidpointKey_cases ha hb (hab.resolve_left ha) with ⟨-, hlt, hd⟩ | ⟨hmid, hb'⟩
    · exact ⟨fun _ => hd, fun _ => hlt.le⟩
    · have hnd : ¬ Divisible a b := by
        rcases hb' with h | h <;> simp [Divisible, ha, h]
      have hlt : b < computeMidpointKey a b := by
        rw [hmid]
        rcases hb' with h | h
        · rw [h]
          exact lt_append_singleton a 128
        · rw [h]
          exact append_cons_lt_append_cons a [] [] (by decide)
      exact ⟨fun h => absurd hlt (not_lt.2 h), fun h => absurd h hnd⟩

/-! ## Strictness -/

/-- The key lies strictly inside a range; as an upper bound the empty key is `+∞`. -/
def StrictlyBetween (a k b : Slice) : Prop := a < k ∧ (b = [] ∨ k < b)

lemma not_lt_of_lt_successor {k : Slice} (h : k < a ++ [0]) : ¬ a < k := by
  intro hak
  rcases firstDivergence_of_le hak.le [] with ⟨t, x, y, a', k', -, rfl, rfl, hxy⟩ | ⟨-, t, rfl⟩
  · have hlt := append_cons_lt_append_cons t (a' ++ [0]) k' hxy
    exact lt_asymm h (by simpa using hlt)
  · rw [append_lt_append_iff] at h
    cases t with
    | nil => simp at hak
    | cons z t => simp [cons_lt_cons_iff] at h

/-- **Strict midpoints.** Where there is a key inside the range, the midpoint is one, except between
`-∞` and a key that starts with a zero byte or is the single byte 1. -/
theorem computeMidpointKey_strict_iff {a b : Slice} (h : ∃ k, StrictlyBetween a k b) :
    StrictlyBetween a (computeMidpointKey a b) b ↔ a ≠ [] ∨ b.head? ≠ some 0 ∧ b ≠ [1] := by
  obtain ⟨k, hak, hkb⟩ := h
  by_cases ha : a = []
  · subst ha
    have hmid : [] < computeMidpointKey [] b := by
      obtain ⟨x, l, hx⟩ := exists_cons_of_ne_nil (computeMidpointKey_ne_nil [] b)
      rw [hx]
      exact nil_lt_cons x l
    cases b with
    | nil => simp [StrictlyBetween, hmid]
    | cons y b => simp [StrictlyBetween, hmid, computeMidpointKey_nil_lt_iff]
  · refine iff_of_true ?_ (.inl ha)
    rcases hkb with rfl | hkb
    · exact ⟨lt_computeMidpointKey ha (.inl rfl), .inl rfl⟩
    · have hb : b ≠ [] := by
        rintro rfl
        simp at hkb
      rcases computeMidpointKey_cases ha hb (hak.trans hkb).le with ⟨hlt, hlt', -⟩ | ⟨-, rfl | rfl⟩
      · exact ⟨hlt, .inr hlt'⟩
      · exact absurd hkb (lt_asymm hak)
      · exact absurd hak (not_lt_of_lt_successor hkb)

theorem computeMidpointKey_strict_iff_pair : StrictlyBetween [1] [1, 0] [2] ∧
    (StrictlyBetween [1] (computeMidpointKey [1] [2]) [2] ↔
      ([1] : Slice) ≠ [] ∨ ([2] : Slice).head? ≠ some 0 ∧ ([2] : Slice) ≠ [1]) :=
  have h : StrictlyBetween [1] [1, 0] [2] := ⟨by decide, .inr (by decide)⟩
  ⟨h, computeMidpointKey_strict_iff ⟨_, h⟩⟩

/-- Between `-∞` and the byte 1 there is the byte 0, and the midpoint is the byte 1. -/
theorem midpoint_not_strict :
    ¬ ∀ a b, (∃ k, StrictlyBetween a k b) → StrictlyBetween a (computeMidpointKey a b) b := by
  intro h
  have hone := h [] [1] ⟨[0], by decide, .inr (by decide)⟩
  exact absurd hone.2 (by decide)

end BucketLSM
