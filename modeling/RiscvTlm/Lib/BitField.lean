import Mathlib.Data.BitVec
import Mathlib.Tactic.Common
import Mathlib.Tactic.SplitIfs

/-!
# Bit fields

`place n pos a` is the `n`-bit word with the field `a` at bit `pos`, and `range x hi lo` reads
bits `hi` down to `lo` of a word as a 64-bit number. An encoder is an `|||` of placed fields, a
field accessor is an `|||` of shifted ranges, and the lemmas here compute one on the other
without looking at single bits: `range` distributes over `|||` (`range_or`), and on one placed
field it gives the field (`range_place_inside`), a part of it (`range_place_within`) or nothing
(`range_place_below`, `range_place_above`). `place_or_place` glues adjacent slices of one number
back together, and `signExtend_place` is the sign extension written with an `|||`.
-/

namespace BitField

variable {k n m : ℕ}

/-- Field `a` at bit `pos` of an `n`-bit word. -/
def place (n pos : ℕ) (a : BitVec k) : BitVec n := a.setWidth n <<< pos

/-- Bits `hi` down to `lo` of a word, as a 64-bit number. -/
def range (x : BitVec n) (hi lo : ℕ) : BitVec 64 := (x.extractLsb' lo (hi - lo + 1)).setWidth 64

theorem place_zero (a : BitVec k) : place n 0 a = a.setWidth n := by
  rw [place, BitVec.shiftLeft_zero]

theorem getLsbD_place (pos : ℕ) (a : BitVec k) (i : ℕ) :
    (place n pos a).getLsbD i = (decide (i < n) && (decide (pos ≤ i) && a.getLsbD (i - pos))) := by
  unfold place
  rw [BitVec.getLsbD_shiftLeft, BitVec.getLsbD_setWidth]
  by_cases h : pos ≤ i <;> by_cases h' : i < n
  · simp [h, h', show i - pos < n by omega]
  all_goals simp [h, h']

theorem getElem_place (pos : ℕ) (a : BitVec k) (i : ℕ) (h : i < n) :
    (place n pos a)[i] = (decide (pos ≤ i) && a.getLsbD (i - pos)) := by
  rw [← BitVec.getLsbD_eq_getElem, getLsbD_place]
  simp [h]

theorem getLsbD_range (x : BitVec n) (hi lo i : ℕ) :
    (range x hi lo).getLsbD i =
      (decide (i < 64) && (decide (i < hi - lo + 1) && x.getLsbD (lo + i))) := by
  unfold range
  rw [BitVec.getLsbD_setWidth, BitVec.getLsbD_extractLsb']

/-- A range as a number. -/
theorem toNat_range (x : BitVec n) {hi lo : ℕ} (h : hi - lo < 64) :
    (range x hi lo).toNat = x.toNat / 2 ^ lo % 2 ^ (hi - lo + 1) := by
  rw [range, BitVec.toNat_setWidth_of_le (by omega), BitVec.extractLsb'_toNat,
    Nat.shiftRight_eq_div_pow]

/-- A slice whose number is known. -/
theorem extractLsb'_of_range {hi lo l : ℕ} {x : BitVec n} {a : BitVec l}
    (h : (range x hi lo).toNat = a.toNat) (hl : hi - lo + 1 = l) (h64 : l ≤ 64) :
    x.extractLsb' lo l = a := by
  subst hl
  refine BitVec.eq_of_toNat_eq ?_
  rw [← h, range, BitVec.toNat_setWidth_of_le h64]

/-! ## Ranges of placed fields -/

@[simp] theorem range_or (x y : BitVec n) (hi lo : ℕ) :
    range (x ||| y) hi lo = range x hi lo ||| range y hi lo := by
  apply BitVec.eq_of_getLsbD_eq
  intro i _
  simp only [BitVec.getLsbD_or, getLsbD_range]
  grind

/-- A field below the range contributes nothing to it. -/
@[simp] theorem range_place_below {pos hi lo : ℕ} (a : BitVec k) (h : pos + k ≤ lo) :
    range (place n pos a) hi lo = 0#64 := by
  apply BitVec.eq_of_getLsbD_eq
  intro i _
  simp only [getLsbD_range, getLsbD_place]
  rw [BitVec.getLsbD_of_ge a _ (by omega)]
  simp

/-- A field above the range contributes nothing to it. -/
@[simp] theorem range_place_above {pos hi lo : ℕ} (a : BitVec k) (h : hi < pos) (h' : lo ≤ hi) :
    range (place n pos a) hi lo = 0#64 := by
  apply BitVec.eq_of_getLsbD_eq
  intro i _
  simp only [getLsbD_range, getLsbD_place]
  by_cases hi' : i < hi - lo + 1
  · simp [show ¬ pos ≤ lo + i by omega]
  · simp [hi']

/-- A field that lies inside the range is read in full. -/
@[simp high] theorem range_place_inside {pos hi lo : ℕ} (a : BitVec k) (h : lo ≤ pos)
    (h' : pos + k ≤ hi + 1) (hn : pos + k ≤ n) :
    range (place n pos a) hi lo = place 64 (pos - lo) a := by
  apply BitVec.eq_of_getLsbD_eq
  intro i _
  simp only [getLsbD_range, getLsbD_place]
  by_cases hi' : i < pos - lo + k
  · grind
  · rw [BitVec.getLsbD_of_ge a _ (by omega), BitVec.getLsbD_of_ge a (i - (pos - lo)) (by omega)]
    simp

/-- A range that lies inside one field reads a slice of it. -/
@[simp] theorem range_place_within {pos hi lo : ℕ} (a : BitVec k) (h : pos ≤ lo) (h' : hi < pos + k)
    (hn : pos + k ≤ n) (hlo : lo ≤ hi) :
    range (place n pos a) hi lo = place 64 0 (a.extractLsb' (lo - pos) (hi - lo + 1)) := by
  apply BitVec.eq_of_getLsbD_eq
  intro i _
  simp only [getLsbD_range, getLsbD_place, BitVec.getLsbD_extractLsb']
  by_cases hi' : i < hi - lo + 1
  · simp [hi', show lo + i < n by omega, show pos ≤ lo + i by omega,
      show lo + i - pos = lo - pos + i by omega]
  · simp [hi']

/-- A range reads only the low bits it names. -/
theorem range_of_setWidth_eq {hi lo : ℕ} {x : BitVec n} {y : BitVec m} (h : x.setWidth m = y)
    (hi' : hi < m) (hlo : lo ≤ hi) : range x hi lo = range y hi lo := by
  subst h
  apply BitVec.eq_of_getLsbD_eq
  intro i _
  simp only [getLsbD_range, BitVec.getLsbD_setWidth]
  by_cases hl : i < hi - lo + 1
  · simp [show lo + i < m by omega]
  · simp [hl]

/-- A placed field is zero only when the field is. -/
@[simp] theorem place_eq_zero_iff {pos : ℕ} (a : BitVec k) (h : pos + k ≤ n) :
    place n pos a = 0#n ↔ a = 0#k := by
  constructor
  · intro hz
    apply BitVec.eq_of_getLsbD_eq
    intro i hi
    have hb : (place n pos a).getLsbD (pos + i) = false := by simp [hz]
    rw [getLsbD_place] at hb
    simpa [show pos + i < n by omega] using hb
  · rintro rfl
    simp [place]

/-! ## Gluing slices -/

/-- A field that fills its word. -/
@[simp] theorem place_self (x : BitVec n) : place n 0 x = x := by
  rw [place_zero, BitVec.setWidth_eq]

/-- The slice at a placed field. -/
@[simp] theorem extractLsb'_place {pos : ℕ} (a : BitVec k) (h : pos + k ≤ n) :
    (place n pos a).extractLsb' pos k = a := by
  apply BitVec.eq_of_getLsbD_eq
  intro i hi
  rw [BitVec.getLsbD_extractLsb', getLsbD_place, decide_eq_true hi, decide_eq_true (by omega),
    decide_eq_true (by omega), Nat.add_sub_cancel_left]
  rfl

/-- A slice apart from a placed field. -/
@[simp] theorem extractLsb'_place_apart {pos t l : ℕ} (a : BitVec k)
    (h : t + l ≤ pos ∨ pos + k ≤ t) : (place n pos a).extractLsb' t l = 0#l := by
  apply BitVec.eq_of_getLsbD_eq
  intro i hi
  rw [BitVec.getLsbD_extractLsb', getLsbD_place, BitVec.getLsbD_zero]
  rcases h with h | h
  · rw [decide_eq_false (by omega : ¬pos ≤ t + i), Bool.false_and, Bool.and_false, Bool.and_false]
  · rw [BitVec.getLsbD_of_ge a _ (by omega), Bool.and_false, Bool.and_false, Bool.and_false]

/-- A slice of a slice. -/
@[simp] theorem extractLsb'_extractLsb' {s l t l' : ℕ} (x : BitVec k) (h : t + l' ≤ l) :
    (x.extractLsb' s l).extractLsb' t l' = x.extractLsb' (s + t) l' := by
  apply BitVec.eq_of_getLsbD_eq
  intro i hi
  simp only [BitVec.getLsbD_extractLsb', hi, decide_true, Bool.true_and,
    show t + i < l by omega, Nat.add_assoc]

/-- Two adjacent slices of a number, placed next to each other, are one slice. -/
theorem place_or_place {j pos s t l : ℕ} {l' : ℕ} (x : BitVec k) (hj : j = pos + l)
    (hs : s = t + l) :
    place n j (x.extractLsb' s l') ||| place n pos (x.extractLsb' t l) =
      place n pos (x.extractLsb' t (l + l')) := by
  subst hj hs
  apply BitVec.eq_of_getLsbD_eq
  intro i hi
  simp only [BitVec.getLsbD_or, getLsbD_place, BitVec.getLsbD_extractLsb', hi, decide_true,
    Bool.true_and]
  by_cases h1 : pos ≤ i <;> by_cases h2 : pos + l ≤ i
  · simp [h1, h2, show ¬ i - pos < l by omega,
      show t + l + (i - (pos + l)) = t + (i - pos) by omega,
      show (i - (pos + l) < l') ↔ (i - pos < l + l') by omega]
  · simp [h1, h2, show i - pos < l by omega, show i - pos < l + l' by omega]
  · omega
  · simp [h1, h2]

theorem place_or (pos : ℕ) (a b : BitVec k) :
    place n pos (a ||| b) = place n pos a ||| place n pos b := by
  rw [place, BitVec.setWidth_or, BitVec.shiftLeft_or_distrib]
  rfl

theorem place_place {p q : ℕ} (a : BitVec k) (h : q + k ≤ m) :
    place n p (place m q a) = place n (p + q) a := by
  apply BitVec.eq_of_getLsbD_eq
  intro i _
  simp only [getLsbD_place]
  by_cases hi : i - (p + q) < k
  · by_cases hp : p ≤ i
    · simp [hp, show i - p < m by omega, show q ≤ i - p ↔ p + q ≤ i by omega, Nat.sub_sub]
    · simp [hp, show ¬ p + q ≤ i by omega]
  · rw [Nat.sub_sub, BitVec.getLsbD_of_ge a _ (by omega)]
    simp

@[simp] theorem shiftLeft_place (p q : ℕ) (a : BitVec k) :
    place n p a <<< q = place n (p + q) a := by
  unfold place
  rw [← BitVec.shiftLeft_add]

@[simp] theorem setWidth_place (p : ℕ) (a : BitVec k) (h : m ≤ n) :
    (place n p a).setWidth m = place m p a := by
  apply BitVec.eq_of_getLsbD_eq
  intro i hi
  rw [BitVec.getLsbD_setWidth, getLsbD_place, getLsbD_place]
  simp [hi, show i < n by omega]

@[simp] theorem toNat_place_zero (a : BitVec k) (h : k ≤ n) : (place n 0 a).toNat = a.toNat := by
  unfold place
  rw [BitVec.shiftLeft_zero, BitVec.toNat_setWidth_of_le h]

theorem toNat_place {pos : ℕ} (a : BitVec k) (h : pos + k ≤ n) :
    (place n pos a).toNat = a.toNat * 2 ^ pos := by
  have hlt : a.toNat * 2 ^ pos < 2 ^ n :=
    calc a.toNat * 2 ^ pos < 2 ^ k * 2 ^ pos :=
          Nat.mul_lt_mul_of_pos_right a.isLt (Nat.two_pow_pos pos)
      _ = 2 ^ (pos + k) := by rw [← Nat.pow_add, Nat.add_comm]
      _ ≤ 2 ^ n := Nat.pow_le_pow_right (by decide) h
  rw [place, BitVec.toNat_shiftLeft, BitVec.toNat_setWidth_of_le (by omega), Nat.shiftLeft_eq,
    Nat.mod_eq_of_lt hlt]

/-- A one-bit field, read as a number, is `1` exactly when the bit is set. -/
theorem place_bit_eq_one (x : BitVec k) (i : ℕ) :
    place 64 0 (x.extractLsb' i 1) = 1#64 ↔ x.getLsbD i = true := by
  constructor
  · intro h
    have := congrArg (fun y : BitVec 64 => y.getLsbD 0) h
    simpa [getElem_place] using this
  · intro h
    apply BitVec.eq_of_getLsbD_eq
    intro j _
    by_cases hj : j = 0
    · simp [hj, getElem_place, h]
    · simp [getLsbD_place, hj]

/-! ## Sign extension -/

/-- Sign extension of a placed field: the field, and ones above it when its top bit is set. -/
theorem signExtend_place (pos : ℕ) (a : BitVec (k + 1)) :
    (place (pos + k + 1) pos a).signExtend n =
      if a.getLsbD k then place n pos a ||| BitVec.allOnes n <<< (pos + k + 1)
      else place n pos a := by
  have hmsb : (place (pos + k + 1) pos a).msb = a.getLsbD k := by
    rw [BitVec.msb_eq_getLsbD_last, getLsbD_place]
    simp [show pos + k - pos = k by omega]
  apply BitVec.eq_of_getLsbD_eq
  intro i hi
  rw [BitVec.getLsbD_signExtend, hmsb]
  by_cases hk : i < pos + k + 1
  · cases hs : a.getLsbD k <;> simp [getElem_place, hi, hk]
  · have hge : a.getLsbD (i - pos) = false := BitVec.getLsbD_of_ge a _ (by omega)
    cases hs : a.getLsbD k <;>
      simp [getElem_place, hi, hk, hge]

/-- The same when the ones start at the top bit of the field itself. -/
theorem signExtend_place_top (pos : ℕ) (a : BitVec (k + 1)) :
    (place (pos + k + 1) pos a).signExtend n =
      if a.getLsbD k then place n pos a ||| BitVec.allOnes n <<< (pos + k) else place n pos a := by
  rw [signExtend_place]
  cases hs : a.getLsbD k
  · rfl
  · rw [if_pos rfl, if_pos rfl]
    apply BitVec.eq_of_getLsbD_eq
    intro i hi
    by_cases hk : i = pos + k
    · subst hk
      simp [getElem_place, hi, hs]
    · simp [hi, show (i < pos + k + 1) ↔ (i < pos + k) by omega]

/-- Zero extension of a placed field whose number stays below the sign bit. -/
theorem signExtend_place_of_lt {pos : ℕ} (a : BitVec k) (h : pos + k < m) :
    (place m pos a).signExtend n = place n pos a := by
  have hmsb : (place m pos a).msb = false := by
    rw [BitVec.msb_eq_getLsbD_last, getLsbD_place, BitVec.getLsbD_of_ge a _ (by omega)]
    simp
  rw [BitVec.signExtend_eq_setWidth_of_msb_false hmsb]
  apply BitVec.eq_of_getLsbD_eq
  intro i hi
  rw [BitVec.getLsbD_setWidth, getLsbD_place, getLsbD_place]
  by_cases him : i < m
  · simp [hi, him]
  · rw [BitVec.getLsbD_of_ge a _ (by omega)]
    simp

/-- Sign extension in two steps. -/
theorem signExtend_signExtend_of_le (a : BitVec k) (h : k ≤ m) :
    (a.signExtend m).signExtend n = a.signExtend n := by
  have hn : (a.signExtend m).signExtend n = BitVec.ofInt n (a.signExtend m).toInt := rfl
  rw [hn, BitVec.toInt_signExtend_of_le h]
  rfl

theorem setWidth_signExtend_of_le (a : BitVec k) (h : m ≤ n) :
    (a.signExtend n).setWidth m = a.signExtend m := by
  apply BitVec.eq_of_getLsbD_eq
  intro i hi
  rw [BitVec.getLsbD_setWidth, BitVec.getLsbD_signExtend, BitVec.getLsbD_signExtend]
  simp [hi, show i < n by omega]

/-- A field that is extended before it is placed. -/
theorem place_signExtend {pos l : ℕ} (a : BitVec (k + 1)) (hl : l = pos + m) :
    place l pos (a.signExtend m) = (place (pos + k + 1) pos a).signExtend l := by
  subst hl
  have hmsb : (place (pos + k + 1) pos a).msb = a.getLsbD k := by
    rw [BitVec.msb_eq_getLsbD_last, getLsbD_place]
    simp [show pos + k - pos = k by omega]
  have hamsb : a.msb = a.getLsbD k := by
    rw [BitVec.msb_eq_getLsbD_last]
    rfl
  apply BitVec.eq_of_getLsbD_eq
  intro i hi
  rw [getLsbD_place, BitVec.getLsbD_signExtend, BitVec.getLsbD_signExtend, hmsb, hamsb,
    getLsbD_place]
  by_cases hk : i < pos + k + 1
  · by_cases hp : pos ≤ i
    · simp [hi, hk, hp, show i - pos < m by omega, show i - pos < k + 1 by omega]
    · simp [hi, hk, hp]
  · simp [hi, hk, show pos ≤ i by omega, show i - pos < m by omega,
      show ¬i - pos < k + 1 by omega]

/-- A test of one bit. -/
theorem and_bit_eq_zero_iff {w i : ℕ} (x : BitVec w) (hi : i < w) :
    x &&& 1#w <<< i = 0 ↔ x.getLsbD i = false := by
  constructor
  · intro h
    have hb := congrArg (fun y => y.getLsbD i) h
    simpa [hi] using hb
  · intro h
    apply BitVec.eq_of_getLsbD_eq
    intro j hj
    by_cases hji : j = i
    · simp [hji, h]
    · simp; omega

end BitField
