import Mathlib.Data.List.Induction
import Mathlib.Algebra.Order.Group.Nat
import RiscvTlm.Lib.CString

/-!
# Bytes in hexadecimal text

Two digits make a byte. `bytes n s` are the first `n` bytes of a text, and `strtol` of the text of
some bytes is the number they make with the highest first (`strtol_bytes`).
-/

namespace HexText

open CString

variable {s : List Char} {bs : List (BitVec 8)} {n k j : ℕ}

/-- The byte of two digits. -/
def byteOf (hi lo : Char) : Option (BitVec 8) :=
  match digit hi, digit lo with
  | some h, some l => some (BitVec.ofNat 8 (16 * h + l))
  | _, _ => none

/-- The first bytes of a text. -/
def bytes : ℕ → List Char → Option (List (BitVec 8))
  | 0, _ => some []
  | n + 1, hi :: lo :: s =>
    match byteOf hi lo, bytes n s with
    | some b, some bs => some (b :: bs)
    | _, _ => none
  | _ + 1, _ => none

/-- The number that bytes make, with the highest first. -/
def value (bs : List (BitVec 8)) : ℕ := bs.foldl (fun acc b => 256 * acc + b.toNat) 0

theorem bytes_succ (h : bytes (n + 1) s = some bs) : ∃ hi lo s' b bs',
    s = hi :: lo :: s' ∧ bs = b :: bs' ∧ byteOf hi lo = some b ∧ bytes n s' = some bs' := by
  match s, h with
  | hi :: lo :: s', h =>
    rw [bytes] at h
    split at h
    next b bs' hb hbs =>
      cases h
      exact ⟨hi, lo, s', b, bs', rfl, rfl, hb, hbs⟩
    next => cases h

theorem bytes_length (h : bytes n s = some bs) : bs.length = n ∧ 2 * n ≤ s.length := by
  induction n generalizing s bs with
  | zero =>
    cases h
    exact ⟨rfl, Nat.zero_le _⟩
  | succ n ih =>
    obtain ⟨hi, lo, s', b, bs', rfl, rfl, -, h'⟩ := bytes_succ h
    obtain ⟨hl, hs⟩ := ih h'
    simp only [List.length_cons]
    omega

/-- Some of the bytes, from their own characters. -/
theorem bytes_take_drop (h : bytes n s = some bs) (hk : k + j ≤ n) :
    bytes j ((s.drop (2 * k)).take (2 * j)) = some ((bs.drop k).take j) := by
  induction k generalizing n s bs with
  | zero =>
    induction j generalizing n s bs with
    | zero => rfl
    | succ j ih =>
      obtain ⟨m, rfl⟩ : ∃ m, n = m + 1 := ⟨n - 1, by omega⟩
      obtain ⟨hi, lo, s', b, bs', rfl, rfl, hb, h'⟩ := bytes_succ h
      have hj := ih h' (by omega)
      simp only [Nat.mul_zero, List.drop_zero] at hj ⊢
      rw [Nat.mul_succ, List.take_succ_cons, List.take_succ_cons, List.take_succ_cons, bytes, hb,
        hj]
  | succ k ih =>
    obtain ⟨m, rfl⟩ : ∃ m, n = m + 1 := ⟨n - 1, by omega⟩
    obtain ⟨hi, lo, s', b, bs', rfl, rfl, -, h'⟩ := bytes_succ h
    exact ih h' (by omega)

/-! ## Numbers -/

theorem digit_lt {c : Char} {d : ℕ} (h : digit c = some d) : d < 16 := by
  unfold digit at h
  split at h
  next hc =>
    cases h
    have h9 : c.toNat ≤ '9'.toNat := hc.2
    have hd : '9'.toNat - '0'.toNat = 9 := rfl
    omega
  split at h
  next hc =>
    cases h
    have hf : c.toNat ≤ 'f'.toNat := hc.2
    have hd : 'f'.toNat - 'a'.toNat = 5 := rfl
    omega
  split at h
  next hc =>
    cases h
    have hf : c.toNat ≤ 'F'.toNat := hc.2
    have hd : 'F'.toNat - 'A'.toNat = 5 := rfl
    omega
  next => cases h

/-- A decimal digit has one character. -/
theorem digit_decimal {c : Char} {d : ℕ} (h : digit c = some d) (hd : d < 10) :
    c = Nat.digitChar d := by
  have hc : c.toNat = 48 + d := by
    unfold digit at h
    split at h
    next h0 =>
      cases h
      have h48 : '0'.toNat = 48 := rfl
      have hle : '0'.toNat ≤ c.toNat := h0.1
      omega
    split at h
    next => cases h; omega
    split at h
    next => cases h; omega
    next => cases h
  have hofNat : c = Char.ofNat (48 + d) := by
    rw [← hc, Char.ofNat_toNat]
  rw [hofNat]
  exact (by decide : ∀ d < 10, Char.ofNat (48 + d) = Nat.digitChar d) d hd

theorem byteOf_eq_some {hi lo : Char} {b : BitVec 8} (h : byteOf hi lo = some b) :
    ∃ d e, digit hi = some d ∧ digit lo = some e ∧ b.toNat = 16 * d + e := by
  unfold byteOf at h
  split at h
  next d e hd he =>
    cases h
    have hd16 := digit_lt hd
    have he16 := digit_lt he
    exact ⟨d, e, hd, he, Nat.mod_eq_of_lt (by omega)⟩
  next => cases h

theorem toNat_append_byte {w : ℕ} (x : BitVec w) (b : BitVec 8) :
    (x ++ b).toNat = 256 * x.toNat + b.toNat := by
  rw [BitVec.toNat_append, ← Nat.shiftLeft_add_eq_or_of_lt b.isLt, Nat.shiftLeft_eq, Nat.mul_comm]

theorem value_two (a b : BitVec 8) : value [a, b] = (a ++ b).toNat := by
  rw [toNat_append_byte]
  exact congrArg (256 * · + b.toNat) (Nat.zero_add _)

theorem value_four (a b c d : BitVec 8) : value [a, b, c, d] = (a ++ b ++ c ++ d).toNat := by
  rw [toNat_append_byte, toNat_append_byte, ← value_two]
  rfl

theorem digits_bytes (h : bytes n s = some bs) (hs : s.length = 2 * n) (acc count : ℕ) :
    digits acc count s =
      (bs.foldl (fun acc b => 256 * acc + b.toNat) acc, count + 2 * n, []) := by
  induction n generalizing s bs acc count with
  | zero =>
    cases h
    cases List.eq_nil_of_length_eq_zero hs
    rfl
  | succ n ih =>
    obtain ⟨hi, lo, s', b, bs', rfl, rfl, hb, h'⟩ := bytes_succ h
    obtain ⟨d, e, hd, he, hbe⟩ := byteOf_eq_some hb
    have hs' : s'.length = 2 * n := by
      simp only [List.length_cons] at hs
      omega
    have hacc : 16 * (16 * acc + d) + e = 256 * acc + b.toNat := by omega
    have hcount : count + 1 + 1 + 2 * n = count + 2 * (n + 1) := by omega
    rw [digits, hd]
    dsimp only
    rw [digits, he]
    dsimp only
    rw [ih h' hs', hacc, hcount, List.foldl_cons]

theorem le_digits_count (acc count : ℕ) (s : List Char) : count ≤ (digits acc count s).2.1 := by
  induction s generalizing acc count with
  | nil => exact le_rfl
  | cons c s ih =>
    rw [digits]
    split
    · exact (Nat.le_succ count).trans (ih _ _)
    · exact le_rfl

section Digit

variable {c : Char} (hc : (digit c).isSome)

include hc

theorem le_toNat_of_digit : '0'.toNat ≤ c.toNat := by
  unfold digit at hc
  split at hc
  next h => exact h.1
  split at hc
  next h => exact (by decide : '0'.toNat ≤ 'a'.toNat).trans h.1
  split at hc
  next h => exact (by decide : '0'.toNat ≤ 'A'.toNat).trans h.1
  next => cases hc

theorem isSpace_of_digit : isSpace c = false := by
  have h0 := le_toNat_of_digit hc
  have h48 : '0'.toNat = 48 := rfl
  have hne : c ≠ ' ' := by
    rintro rfl
    exact absurd h0 (by decide)
  rw [isSpace, decide_eq_false hne, Bool.false_or, decide_eq_false_iff_not]
  intro hm
  simp only [List.mem_cons, List.not_mem_nil, or_false] at hm
  omega

theorem sign_of_digit : sign (c :: s) = (false, c :: s) := by
  unfold sign
  split
  next h =>
    cases h
    exact absurd hc (by decide)
  next h =>
    cases h
    exact absurd hc (by decide)
  next => rfl

theorem digits_count_ne_zero : (digits 0 0 (c :: s)).2.1 ≠ 0 := by
  obtain ⟨d, hd⟩ := Option.isSome_iff_exists.mp hc
  rw [digits, hd]
  exact Nat.one_le_iff_ne_zero.mp (le_digits_count _ _ _)

end Digit

theorem dropPrefix_of_ne {c : Char} (hx : ∀ x ∈ s.head?, x ≠ 'x' ∧ x ≠ 'X') :
    dropPrefix (c :: s) = c :: s := by
  unfold dropPrefix
  split
  next x d cs h =>
    cases h
    exact if_neg fun hp => hp.1.elim (hx x rfl).1 (hx x rfl).2
  next => rfl

/-- A text that starts with a digit has neither white space nor a sign in front. -/
theorem strtol_of_digit {c : Char} (hc : (digit c).isSome)
    (hx : ∀ x ∈ s.head?, x ≠ 'x' ∧ x ≠ 'X') :
    strtol (c :: s) = some (((digits 0 0 (c :: s)).1 : ℤ), (digits 0 0 (c :: s)).2.2) := by
  have hdrop : (c :: s).dropWhile isSpace = c :: s := by
    rw [List.dropWhile_cons, isSpace_of_digit hc]
    rfl
  rw [strtol, hdrop, sign_of_digit hc]
  dsimp only
  rw [dropPrefix_of_ne hx, if_neg (digits_count_ne_zero hc)]
  rfl

theorem strtol_bytes (h : bytes n s = some bs) (hs : s.length = 2 * n) (hn : 0 < n) :
    strtol s = some ((value bs : ℤ), []) := by
  cases n with
  | zero => cases hn
  | succ n =>
    have hdigits := digits_bytes h hs 0 0
    obtain ⟨hi, lo, s', b, bs', rfl, -, hb, -⟩ := bytes_succ h
    obtain ⟨d, e, hd, he, -⟩ := byteOf_eq_some hb
    have hx : ∀ x ∈ (lo :: s').head?, x ≠ 'x' ∧ x ≠ 'X' := by
      rintro x ⟨⟩
      constructor
      · rintro rfl
        cases he
      · rintro rfl
        cases he
    rw [strtol_of_digit (by rw [hd]; rfl) hx, hdigits]
    rfl

/-! ## Written text -/

/-- The two digits of a byte. -/
def pair (b : BitVec 8) : List Char := [Nat.digitChar (b.toNat / 16), Nat.digitChar (b.toNat % 16)]

def text (bs : List (BitVec 8)) : List Char := bs.flatMap pair

/-- A number in a fixed number of digits. -/
def fixed : ℕ → ℕ → List Char
  | 0, _ => []
  | k + 1, n => fixed k (n / 16) ++ [Nat.digitChar (n % 16)]

theorem digit_digitChar {d : ℕ} (h : d < 16) : digit (Nat.digitChar d) = some d :=
  (by decide : ∀ d < 16, digit (Nat.digitChar d) = some d) d h

theorem byteOf_pair (b : BitVec 8) :
    byteOf (Nat.digitChar (b.toNat / 16)) (Nat.digitChar (b.toNat % 16)) = some b := by
  have hb := b.isLt
  rw [byteOf, digit_digitChar (by omega), digit_digitChar (by omega)]
  dsimp only
  rw [Nat.div_add_mod, BitVec.ofNat_toNat, BitVec.setWidth_eq]

theorem digit_of_mem_text {bs : List (BitVec 8)} {c : Char} (h : c ∈ text bs) :
    (digit c).isSome := by
  obtain ⟨b, -, hb⟩ := List.mem_flatMap.mp h
  have hlt := b.isLt
  simp only [pair, List.mem_cons, List.not_mem_nil, or_false] at hb
  rcases hb with rfl | rfl
  · rw [digit_digitChar (by omega)]
    rfl
  · rw [digit_digitChar (by omega)]
    rfl

/-- The text of some bytes reads back. -/
theorem bytes_text (bs : List (BitVec 8)) (s : List Char) :
    bytes bs.length (text bs ++ s) = some bs := by
  induction bs with
  | nil => rfl
  | cons b bs ih =>
    show bytes (bs.length + 1) (_ :: _ :: (text bs ++ s)) = _
    rw [bytes, byteOf_pair, ih]

/-- Pieces of one length. -/
theorem length_flatMap_of_length {α β : Type*} {f : α → List β} {l : List α}
    (h : ∀ x ∈ l, (f x).length = k) : (l.flatMap f).length = l.length * k := by
  rw [List.length_flatMap, List.map_congr_left h, List.map_const', List.sum_replicate_nat]

theorem length_text (bs : List (BitVec 8)) : (text bs).length = 2 * bs.length :=
  (length_flatMap_of_length (f := pair) fun _ _ => rfl).trans (Nat.mul_comm bs.length 2)

theorem text_inj {bs cs : List (BitVec 8)} (h : text bs = text cs) : bs = cs := by
  have hlen := congrArg List.length h
  rw [length_text, length_text] at hlen
  have hb := bytes_text bs []
  have hc := bytes_text cs []
  rw [h, show bs.length = cs.length by omega] at hb
  exact Option.some.inj (hb.symm.trans hc)

theorem value_concat (bs : List (BitVec 8)) (b : BitVec 8) :
    value (bs ++ [b]) = 256 * value bs + b.toNat := by
  rw [value, List.foldl_append]
  rfl

theorem value_lt (bs : List (BitVec 8)) : value bs < 16 ^ (2 * bs.length) := by
  induction bs using List.reverseRecOn with
  | nil => exact Nat.one_pos
  | append_singleton bs b ih =>
    have hb := b.isLt
    rw [value_concat, List.length_append, List.length_singleton, Nat.mul_add, Nat.pow_add]
    omega

/-- The text of the number that bytes make. -/
theorem fixed_value (bs : List (BitVec 8)) : fixed (2 * bs.length) (value bs) = text bs := by
  induction bs using List.reverseRecOn with
  | nil => rfl
  | append_singleton bs b ih =>
    have hb := b.isLt
    have hdiv : (256 * value bs + b.toNat) / 16 / 16 = value bs := by omega
    have hhi : (256 * value bs + b.toNat) / 16 % 16 = b.toNat / 16 := by omega
    have hlo : (256 * value bs + b.toNat) % 16 = b.toNat % 16 := by omega
    rw [value_concat, List.length_append, List.length_singleton, Nat.mul_add]
    show fixed (2 * bs.length) _ ++ [_] ++ [_] = _
    rw [hdiv, hhi, hlo, ih, text, text, List.flatMap_append, List.append_assoc]
    rfl

theorem fixed_zero (k : ℕ) : fixed k 0 = List.replicate k '0' := by
  induction k with
  | zero => rfl
  | succ k ih =>
    rw [fixed, Nat.zero_div, ih, List.replicate_succ']
    rfl

/-- Zeros in front of the digits of a number. -/
theorem fixed_eq {k n : ℕ} (hk : 0 < k) (h : n < 16 ^ k) :
    List.replicate (k - (Nat.toDigits 16 n).length) '0' ++ Nat.toDigits 16 n = fixed k n := by
  induction k generalizing n with
  | zero => cases hk
  | succ k ih =>
    by_cases hn : n < 16
    · rw [Nat.toDigits_of_lt_base hn, fixed, Nat.div_eq_of_lt hn, Nat.mod_eq_of_lt hn, fixed_zero]
      rfl
    · have hk : 0 < k := by
        rw [Nat.pos_iff_ne_zero]
        rintro rfl
        omega
      have hdiv : n / 16 < 16 ^ k := Nat.div_lt_of_lt_mul (by rw [Nat.pow_succ'] at h; exact h)
      rw [Nat.toDigits_of_base_le (by decide) (not_lt.mp hn), List.length_append,
        List.length_singleton, Nat.add_sub_add_right, ← List.append_assoc, ih hk hdiv]
      rfl

/-! ## Numbers in digits -/

theorem digit_of_mem_toDigits {n : ℕ} {c : Char} (h : c ∈ Nat.toDigits 16 n) :
    (digit c).isSome := by
  induction n using Nat.strongRecOn with
  | ind n ih =>
    have hlast {d : ℕ} (hd : d < 16) (hc : c ∈ [Nat.digitChar d]) : (digit c).isSome := by
      rw [List.mem_singleton.mp hc, digit_digitChar hd]
      rfl
    by_cases hn : n < 16
    · rw [Nat.toDigits_of_lt_base hn] at h
      exact hlast hn h
    · rw [Nat.toDigits_of_base_le (by decide) (not_lt.mp hn)] at h
      rcases List.mem_append.mp h with h | h
      · exact ih (n / 16) (Nat.div_lt_self (by omega) (by decide)) h
      · exact hlast (Nat.mod_lt n (by decide)) h

/-- What is no digit is not among digits. -/
theorem not_mem_of_digit {s : List Char} {c : Char} (h : c ∈ s → (digit c).isSome)
    (hc : digit c = none) : c ∉ s := by
  intro hs
  have hd := h hs
  rw [hc] at hd
  cases hd

theorem digits_toDigits (n count : ℕ) (s : List Char) :
    digits 0 count (Nat.toDigits 16 n ++ s) =
      digits n (count + (Nat.toDigits 16 n).length) s := by
  induction n using Nat.strongRecOn generalizing count s with
  | ind n ih =>
    have hlast {d : ℕ} (hd : d < 16) (acc count : ℕ) :
        digits acc count ([Nat.digitChar d] ++ s) = digits (16 * acc + d) (count + 1) s := by
      show digits acc count (Nat.digitChar d :: s) = _
      rw [digits, digit_digitChar hd]
    by_cases hn : n < 16
    · rw [Nat.toDigits_of_lt_base hn, hlast hn, Nat.mul_zero, Nat.zero_add]
      rfl
    · rw [Nat.toDigits_of_base_le (by decide) (not_lt.mp hn), List.append_assoc,
        ih _ (Nat.div_lt_self (by omega) (by decide)), hlast (Nat.mod_lt n (by decide)),
        Nat.div_add_mod, List.length_append, Nat.add_assoc]
      rfl

/-- A number in digits and what follows it. -/
theorem strtol_toDigits (n : ℕ) {s : List Char}
    (hs : ∀ c ∈ s.head?, digit c = none ∧ c ≠ 'x' ∧ c ≠ 'X') :
    strtol (Nat.toDigits 16 n ++ s) = some ((n : ℤ), s) := by
  have hdigits := digits_toDigits n 0 s
  have hstop (acc count : ℕ) : digits acc count s = (acc, count, s) := by
    cases s with
    | nil => rfl
    | cons c s =>
      rw [digits, (hs c rfl).1]
  rw [hstop] at hdigits
  have hmem {c : Char} : c ∈ Nat.toDigits 16 n → (digit c).isSome := digit_of_mem_toDigits
  cases ht : Nat.toDigits 16 n with
  | nil => exact absurd ht Nat.toDigits_ne_nil
  | cons c t =>
    rw [ht] at hdigits hmem
    rw [List.cons_append] at hdigits ⊢
    rw [strtol_of_digit (hmem List.mem_cons_self), hdigits]
    intro x hx
    cases t with
    | nil => exact (hs x hx).2
    | cons y t =>
      cases hx
      have hy : (digit x).isSome := hmem (List.mem_cons_of_mem _ List.mem_cons_self)
      refine ⟨?_, ?_⟩ <;>
      · rintro rfl
        cases hy

end HexText
