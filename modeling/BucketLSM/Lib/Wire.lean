import BucketLSM.Lib.LittleEndian
import BucketLSM.Lib.Loop

/-!
# Wire formats

A reader takes a value from the front of its input, or fails with an error. `Reads g bytes a` says
that a reader gets `a` from `bytes` whatever follows, and `Yields g P` that it only gets values with
`P`. Both follow the structure of a reader. A format of records is read by a loop, and `Steps` lists
the rounds that a sequence of records takes it through.

Numbers are in base 128 with the least significant digit first and a high bit on all digits but the
last, and byte strings have their length in front of them.
-/

namespace BucketLSM.Lib.Wire

open List Option

abbrev Bytes := List (Fin 256)

/-- A reader with errors in `ε`. The result `none` is that a loop ran out of rounds. -/
def Get (ε α : Type) := Bytes → Option (Except ε (α × Bytes))

namespace Get

variable {ε α β σ ρ : Type}

instance : Monad (Get ε) where
  pure a := fun input => some (.ok (a, input))
  bind g f := fun input =>
    match g input with
    | none => none
    | some (.error e) => some (.error e)
    | some (.ok r) => f r.1 r.2

/-- Fails with an error. -/
def fail (e : ε) : Get ε α := fun _ => some (.error e)

/-- A reader whose failures all are the error `e`. -/
def orFail (get : Bytes → Option (α × Bytes)) (e : ε) : Get ε α := fun input =>
  match get input with
  | none => some (.error e)
  | some r => some (.ok r)

/-- At most `fuel` rounds of a loop. -/
def loopFor (body : σ → Get ε (Round σ ρ)) : ℕ → σ → Get ε ρ
  | 0, _ => fun _ => none
  | fuel + 1, s => do
    match ← body s with
    | .next t => loopFor body fuel t
    | .leave r => pure r

/-- A loop whose rounds each read something. -/
def loop (body : σ → Get ε (Round σ ρ)) (s : σ) : Get ε ρ := fun input =>
  loopFor body (input.length + 1) s input

/-! ## What a reader gets -/

/-- The reader gets `a` from `bytes`, whatever follows. -/
def Reads (g : Get ε α) (bytes : Bytes) (a : α) : Prop :=
  ∀ rest, g (bytes ++ rest) = some (.ok (a, rest))

lemma reads_pure (a : α) : Reads (pure a : Get ε α) [] a := fun _ => rfl

variable {a : α} {f : α → Get ε β} {g : Get ε α} {rest bytes last : Bytes} {e : ε}
  {get : Bytes → Option (α × Bytes)} {body : σ → Get ε (Round σ ρ)} {r : ρ} {s t : σ}
  {P : α → Prop}

lemma bind_eq {input : Bytes} (h : g input = some (.ok (a, rest))) :
    (g >>= f) input = f a rest := by
  change (match g input with
    | none => none
    | some (.error e) => some (.error e)
    | some (.ok r) => f r.1 r.2) = f a rest
  rw [h]

lemma Reads.bind {x y : Bytes} {b : β} (hg : Reads g x a) (hf : Reads (f a) y b) :
    Reads (g >>= f) (x ++ y) b := by
  intro rest
  rw [append_assoc, bind_eq (hg _)]
  exact hf rest

lemma Reads.bind_pure {x : Bytes} {b : β} (hg : Reads g x a) (hf : f a = pure b) :
    Reads (g >>= f) x b := by
  intro rest
  rw [bind_eq (hg rest), hf]
  rfl

lemma reads_orFail (h : ∀ rest, get (bytes ++ rest) = some (a, rest)) :
    Reads (orFail get e) bytes a := by
  intro rest
  rw [orFail, h]

/-- The rounds that some bytes take a loop through. -/
inductive Steps (body : σ → Get ε (Round σ ρ)) : Bytes → σ → σ → Prop
  | refl (s : σ) : Steps body [] s s
  | round {x y : Bytes} {s t u : σ} (h : Reads (body s) x (.next t)) (hne : x ≠ [])
      (rest : Steps body y t u) : Steps body (x ++ y) s u

namespace Steps

variable {body : σ → Get ε (Round σ ρ)} {x y : Bytes} {s t u : σ}

lemma single (h : Reads (body s) x (.next t)) (hne : x ≠ []) : Steps body x s t := by
  have hround := round h hne (.refl t)
  rw [append_nil] at hround
  exact hround

lemma trans (h : Steps body x s t) (h' : Steps body y t u) : Steps body (x ++ y) s u := by
  induction h with
  | refl => exact h'
  | round hr hne _ ih =>
    rw [append_assoc]
    exact .round hr hne (ih h')

/-- The records of a list that each add an element to the state. -/
lemma flatMap {put : α → Bytes} {l : List α} (add : List α → σ) (hstart : add [] = s)
    (h : ∀ l', ∀ a ∈ l, Steps body (put a) (add l') (add (l' ++ [a]))) :
    Steps body (l.flatMap put) s (add l) := by
  rw [← hstart]
  suffices hgen : ∀ l', Steps body (l.flatMap put) (add l') (add (l' ++ l)) from hgen []
  induction l with
  | nil =>
    intro l'
    rw [append_nil]
    exact .refl _
  | cons a l ih =>
    intro l'
    have htail := ih (fun l'' b hb => h l'' b (mem_cons_of_mem a hb)) (l' ++ [a])
    rw [append_assoc] at htail
    rw [flatMap_cons]
    exact (h l' a mem_cons_self).trans htail

end Steps

section

variable (h : Steps body bytes s t) (hlast : body t last = some (.ok (.leave r, rest)))

include h hlast

lemma loopFor_of_steps {fuel : ℕ} (hfuel : bytes.length < fuel) :
    loopFor body fuel s (bytes ++ last) = some (.ok (r, rest)) := by
  induction h generalizing fuel with
  | refl =>
    obtain ⟨fuel, rfl⟩ : ∃ n, fuel = n + 1 := ⟨fuel - 1, by omega⟩
    rw [loopFor, nil_append, bind_eq hlast]
    rfl
  | @round x y s t u hr hne _ ih =>
    obtain ⟨fuel, rfl⟩ : ∃ n, fuel = n + 1 := ⟨fuel - 1, by omega⟩
    have hpos := length_pos_of_ne_nil hne
    rw [length_append] at hfuel
    rw [loopFor, append_assoc, bind_eq (hr _)]
    exact ih hlast (by omega)

/-- A loop that takes the rounds of `bytes` and then leaves. -/
lemma loop_of_steps : loop body s (bytes ++ last) = some (.ok (r, rest)) := by
  refine loopFor_of_steps h hlast ?_
  rw [length_append]
  omega

end

lemma reads_loop (h : Steps body bytes s t) (hlast : Reads (body t) last (.leave r)) :
    Reads (loop body s) (bytes ++ last) r := by
  intro rest
  rw [append_assoc]
  exact loop_of_steps h (hlast rest)

/-! ## What holds of all that a reader gets -/

/-- The reader only gets values with `P`. -/
def Yields (g : Get ε α) (P : α → Prop) : Prop :=
  ∀ input a rest, g input = some (.ok (a, rest)) → P a

lemma yields_pure (h : P a) : Yields (pure a : Get ε α) P := by
  intro input b rest heq
  obtain ⟨rfl, -⟩ := Prod.mk.inj (Except.ok.inj (some.inj heq))
  exact h

lemma yields_fail : Yields (fail e : Get ε α) P := by
  intro input a rest heq
  exact absurd (some.inj heq) (by simp)

lemma yields_true : Yields g fun _ => True := fun _ _ _ _ => trivial

lemma Yields.bind {Q : β → Prop} (hg : Yields g P) (hf : ∀ a, P a → Yields (f a) Q) :
    Yields (g >>= f) Q := by
  intro input b rest heq
  have hg' := hg input
  change (match g input with
    | none => none
    | some (.error e) => some (.error e)
    | some (.ok r) => f r.1 r.2) = some (.ok (b, rest)) at heq
  cases h : g input with
  | none => simp [h] at heq
  | some r =>
    cases r with
    | error e => simp [h] at heq
    | ok r =>
      simp only [h] at heq
      exact hf r.1 (hg' r.1 r.2 h) r.2 b rest heq

lemma yields_orFail (h : ∀ input a rest, get input = some (a, rest) → P a) :
    Yields (orFail get e) P := by
  intro input a rest heq
  rw [orFail] at heq
  cases hget : get input with
  | none => simp [hget] at heq
  | some r =>
    simp only [hget] at heq
    exact h input a rest (hget.trans (congrArg some (Except.ok.inj (some.inj heq))))

/-- What a round of a loop keeps, and what it leaves with. -/
def Rounds (inv : σ → Prop) (post : ρ → Prop) : Round σ ρ → Prop
  | .next s => inv s
  | .leave r => post r

lemma yields_loop {inv : σ → Prop} {post : ρ → Prop}
    (hbody : ∀ s, inv s → Yields (body s) (Rounds inv post)) (hs : inv s) :
    Yields (loop body s) post := by
  intro input
  suffices h : ∀ fuel s, inv s → Yields (loopFor body fuel s) post from
    h (input.length + 1) s hs input
  intro fuel
  induction fuel with
  | zero =>
    intro s hs input r rest heq
    exact absurd heq (by simp [loopFor])
  | succ fuel ih =>
    intro s hs
    rw [loopFor]
    refine (hbody s hs).bind fun round hround => ?_
    cases round with
    | next t => exact ih t hround
    | leave r => exact yields_pure hround

end Get

/-! ## Numbers -/

/-- Base 128, the least significant digit first. -/
def putVarint (n : ℕ) : Bytes :=
  if n < 128 then [⟨n % 256, Nat.mod_lt n (by decide)⟩]
  else ⟨(n % 128 + 128) % 256, Nat.mod_lt _ (by decide)⟩ :: putVarint (n / 128)
termination_by n
decreasing_by omega

/-- Reads at most `steps` digits into a machine word of `bits` bits. -/
def getVarintLoop (bits : ℕ) : ℕ → ℕ → ℕ → Bytes → Option (ℕ × Bytes)
  | 0, _, _, _ => none
  | _ + 1, _, _, [] => none
  | steps + 1, shift, result, byte :: input =>
    if 128 ≤ byte.val then
      -- more bytes are present
      getVarintLoop bits steps (shift + 7) (result ||| (byte.val % 128) <<< shift % 2 ^ bits) input
    else some (result ||| byte.val <<< shift % 2 ^ bits, input)

def getVarint (bits steps : ℕ) (input : Bytes) : Option (ℕ × Bytes) :=
  getVarintLoop bits steps 0 0 input

section Varint

variable {bits steps shift result n : ℕ} {input rest : Bytes}

lemma or_shiftLeft_mod {digit : ℕ} (hresult : result < 2 ^ shift)
    (hdigit : digit * 2 ^ shift < 2 ^ bits) :
    result ||| digit <<< shift % 2 ^ bits = result + digit * 2 ^ shift := by
  rw [Nat.shiftLeft_eq, Nat.mod_eq_of_lt hdigit, Nat.or_comm, Nat.mul_comm,
    ← Nat.two_pow_add_eq_or_of_lt hresult, Nat.add_comm]

lemma getVarintLoop_putVarint (hresult : result < 2 ^ shift) (hn : n * 2 ^ shift < 2 ^ bits)
    (hsteps : bits < shift + 7 * steps + 1) (hshift : shift < bits) (rest : Bytes) :
    getVarintLoop bits steps shift result (putVarint n ++ rest) =
      some (result + n * 2 ^ shift, rest) := by
  induction steps generalizing shift result n with
  | zero => omega
  | succ steps ih =>
    rw [putVarint]
    by_cases hlt : n < 128
    · have hbyte : n % 256 = n := Nat.mod_eq_of_lt (by omega)
      simp only [if_pos hlt, singleton_append, getVarintLoop, hbyte, if_neg (not_le.2 hlt),
        or_shiftLeft_mod hresult hn]
    · have hbyte : (n % 128 + 128) % 256 = n % 128 + 128 := by omega
      have hdigit : (n % 128 + 128) % 128 = n % 128 := by omega
      have hlow : n % 128 * 2 ^ shift < 2 ^ bits :=
        (Nat.mul_le_mul_right _ (Nat.mod_le n 128)).trans_lt hn
      have hpow : 2 ^ (shift + 7) = 128 * 2 ^ shift := by
        rw [Nat.pow_add, Nat.mul_comm]
      have hsplit : n % 128 * 2 ^ shift + n / 128 * (128 * 2 ^ shift) = n * 2 ^ shift := by
        rw [← Nat.mul_assoc, ← Nat.add_mul, Nat.mul_comm (n / 128), Nat.mod_add_div]
      have hnext : result + n % 128 * 2 ^ shift < 2 ^ (shift + 7) := by
        have hle := Nat.mul_le_mul_right (2 ^ shift) (show n % 128 ≤ 127 by omega)
        omega
      have hshift' : shift + 7 < bits := by
        by_contra hge
        have hmono : 2 ^ bits ≤ 2 ^ (shift + 7) := Nat.pow_le_pow_right (by omega) (by omega)
        have hle := Nat.mul_le_mul_right (2 ^ shift) (show 128 ≤ n by omega)
        omega
      simp only [if_neg hlt, cons_append, getVarintLoop, hbyte, hdigit,
        if_pos (show 128 ≤ n % 128 + 128 by omega), or_shiftLeft_mod hresult hlow]
      rw [ih hnext (by rw [hpow]; omega) (by omega) hshift', hpow, Nat.add_assoc, hsplit]

/-- A number that fits into the word is read back. -/
lemma getVarint_putVarint (hn : n < 2 ^ bits) (hsteps : bits < 7 * steps + 1) (hbits : 0 < bits)
    (rest : Bytes) : getVarint bits steps (putVarint n ++ rest) = some (n, rest) := by
  have h := getVarintLoop_putVarint (show 0 < 2 ^ 0 by decide) (show n * 2 ^ 0 < 2 ^ bits by omega)
    (show bits < 0 + 7 * steps + 1 by omega) hbits rest
  simpa [getVarint] using h

lemma getVarintLoop_lt (hresult : result < 2 ^ bits)
    (h : getVarintLoop bits steps shift result input = some (n, rest)) : n < 2 ^ bits := by
  induction steps generalizing shift result input with
  | zero => simp [getVarintLoop] at h
  | succ steps ih =>
    have hor (digit : ℕ) : result ||| digit % 2 ^ bits < 2 ^ bits :=
      Nat.or_lt_two_pow hresult (Nat.mod_lt _ (Nat.two_pow_pos bits))
    cases input with
    | nil => simp [getVarintLoop] at h
    | cons byte input =>
      rw [getVarintLoop] at h
      split_ifs at h
      · exact ih (hor _) h
      · obtain ⟨rfl, -⟩ := Prod.mk.inj (some.inj h)
        exact hor _

/-- A number that is read fits into the word. -/
lemma getVarint_lt (h : getVarint bits steps input = some (n, rest)) : n < 2 ^ bits :=
  getVarintLoop_lt (Nat.two_pow_pos bits) h

lemma putVarint_ne_nil (n : ℕ) : putVarint n ≠ [] := by
  rw [putVarint]
  split_ifs <;> simp

end Varint

/-- A number of `w` bytes. -/
def getFixed (w : ℕ) (input : Bytes) : Option (ℕ × Bytes) :=
  if input.length < w then none else some (LittleEndian.decode (input.take w), input.drop w)

lemma getFixed_encode {w n : ℕ} (hn : n < 256 ^ w) (rest : Bytes) :
    getFixed w (LittleEndian.encode w n ++ rest) = some (n, rest) := by
  have hlen := LittleEndian.length_encode w n
  rw [getFixed, if_neg (by rw [length_append]; omega), take_left' hlen,
    drop_left' hlen, LittleEndian.decode_encode, Nat.mod_eq_of_lt hn]

/-! ## Byte strings -/

/-- A string with its length in front, which is cut to 32 bits. -/
def putLengthPrefixed (s : Bytes) : Bytes := putVarint (s.length % 2 ^ 32) ++ s

def getLengthPrefixed (input : Bytes) : Option (Bytes × Bytes) :=
  match getVarint 32 5 input with
  | none => none
  | some r => if r.1 ≤ r.2.length then some (r.2.take r.1, r.2.drop r.1) else none

lemma getLengthPrefixed_putLengthPrefixed {s : Bytes} (hs : s.length < 2 ^ 32) (rest : Bytes) :
    getLengthPrefixed (putLengthPrefixed s ++ rest) = some (s, rest) := by
  have hlen := getVarint_putVarint hs (show 32 < 7 * 5 + 1 by decide) (by decide) (s ++ rest)
  rw [getLengthPrefixed, putLengthPrefixed, Nat.mod_eq_of_lt hs, append_assoc, hlen]
  simp

/-- A string that is read has a length of 32 bits. -/
lemma length_lt_of_getLengthPrefixed {input s rest : Bytes}
    (h : getLengthPrefixed input = some (s, rest)) : s.length < 2 ^ 32 := by
  rw [getLengthPrefixed] at h
  cases hlen : getVarint 32 5 input with
  | none => simp [hlen] at h
  | some r =>
    have hlt : r.1 < 2 ^ 32 := getVarint_lt hlen
    simp only [hlen] at h
    split_ifs at h
    obtain ⟨rfl, -⟩ := Prod.mk.inj (some.inj h)
    rw [length_take]
    omega

end BucketLSM.Lib.Wire
