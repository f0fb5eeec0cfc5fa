import RiscvTlm.Lib.BitField

/-!
# Little-endian bytes

`byte x i` is byte `i` of a number and `ofBytes w f n` the `w`-bit number whose low `n` bytes are
`f 0, …, f (n - 1)`. The two are inverse (`byte_ofBytes`, `ofBytes_byte`), a number of `n + m`
bytes is its low part with the high part shifted above it (`ofBytes_add`), and truncation keeps
the low bytes (`setWidth_ofBytes`).
-/

namespace Bytes

open BitField

variable {k w v : ℕ}

/-- Byte `i` of a number, counted from the least significant. -/
def byte (x : BitVec k) (i : ℕ) : BitVec 8 := x.extractLsb' (8 * i) 8

/-- The `w`-bit number with the little-endian bytes `f 0, …, f (n - 1)`. -/
def ofBytes (w : ℕ) (f : ℕ → BitVec 8) : ℕ → BitVec w
  | 0 => 0#w
  | n + 1 => ofBytes w f n ||| place w (8 * n) (f n)

theorem getLsbD_byte (x : BitVec k) (i j : ℕ) :
    (byte x i).getLsbD j = (decide (j < 8) && x.getLsbD (8 * i + j)) := by
  rw [byte, BitVec.getLsbD_extractLsb']

theorem getLsbD_ofBytes (f : ℕ → BitVec 8) (n i : ℕ) :
    (ofBytes w f n).getLsbD i =
      (decide (i < w) && (decide (i < 8 * n) && (f (i / 8)).getLsbD (i % 8))) := by
  induction n with
  | zero => simp [ofBytes]
  | succ n ih =>
    rw [ofBytes, BitVec.getLsbD_or, ih, getLsbD_place]
    by_cases hw : i < w
    · by_cases h : i < 8 * n
      · simp [hw, h, show ¬ 8 * n ≤ i by omega, show i < 8 * (n + 1) by omega]
      · by_cases h' : i < 8 * (n + 1)
        · simp [hw, h, h', show 8 * n ≤ i by omega, show i / 8 = n by omega,
            show i % 8 = i - 8 * n by omega]
        · simp [hw, h, h', BitVec.getLsbD_of_ge (f n) (i - 8 * n) (by omega)]
    · simp [hw]

/-- Only the first `n` bytes matter. -/
theorem ofBytes_congr {f g : ℕ → BitVec 8} {n : ℕ} (h : ∀ i < n, f i = g i) :
    ofBytes w f n = ofBytes w g n := by
  induction n with
  | zero => rfl
  | succ n ih => rw [ofBytes, ofBytes, ih fun i hi => h i (by omega), h n (by omega)]

/-- Truncation keeps the low bytes. -/
theorem setWidth_ofBytes (f : ℕ → BitVec 8) {n l : ℕ} (hv : v = 8 * l) (hw : v ≤ w) (hl : l ≤ n) :
    (ofBytes w f n).setWidth v = ofBytes v f l := by
  apply BitVec.eq_of_getLsbD_eq
  intro i hi
  rw [BitVec.getLsbD_setWidth, getLsbD_ofBytes, getLsbD_ofBytes]
  simp [hi, show i < w by omega, show i < 8 * n by omega, show i < 8 * l by omega]

/-- Zero extension of a number that holds all its bytes. -/
theorem setWidth_ofBytes_of_le (f : ℕ → BitVec 8) {n : ℕ} (hw : 8 * n ≤ w) :
    (ofBytes w f n).setWidth v = ofBytes v f n := by
  apply BitVec.eq_of_getLsbD_eq
  intro i hi
  rw [BitVec.getLsbD_setWidth, getLsbD_ofBytes, getLsbD_ofBytes]
  by_cases h : i < 8 * n
  · simp [hi, h, show i < w by omega]
  · simp [h]

/-- A number of `n + m` bytes is its low `n` bytes with the high `m` bytes above them. -/
theorem ofBytes_add (f : ℕ → BitVec 8) (n m : ℕ) :
    ofBytes w f (n + m) = ofBytes w f n ||| ofBytes w (fun i => f (n + i)) m <<< (8 * n) := by
  apply BitVec.eq_of_getLsbD_eq
  intro i hi
  rw [BitVec.getLsbD_or, BitVec.getLsbD_shiftLeft, getLsbD_ofBytes, getLsbD_ofBytes,
    getLsbD_ofBytes]
  by_cases h : i < 8 * n
  · simp [hi, h, show i < 8 * (n + m) by omega]
  · simp [hi, h, show i - 8 * n < w by omega, show (i - 8 * n) % 8 = i % 8 by omega,
      show n + (i - 8 * n) / 8 = i / 8 by omega,
      show (i - 8 * n < 8 * m) ↔ (i < 8 * (n + m)) by omega]

theorem byte_ofBytes (f : ℕ → BitVec 8) {n i : ℕ} (hi : i < n) (hw : 8 * n ≤ w) :
    byte (ofBytes w f n) i = f i := by
  apply BitVec.eq_of_getLsbD_eq
  intro j hj
  rw [getLsbD_byte, getLsbD_ofBytes]
  simp [hj, show 8 * i + j < w by omega, show 8 * i + j < 8 * n by omega,
    show (8 * i + j) / 8 = i by omega, show (8 * i + j) % 8 = j by omega]

theorem ofBytes_byte (x : BitVec (8 * k)) : ofBytes (8 * k) (byte x) k = x := by
  apply BitVec.eq_of_getLsbD_eq
  intro i hi
  rw [getLsbD_ofBytes, getLsbD_byte]
  simp [hi, show i % 8 < 8 by omega, show 8 * (i / 8) + i % 8 = i by omega]

/-- Truncation does not change the bytes it keeps. -/
theorem byte_setWidth (x : BitVec k) {i : ℕ} (h : 8 * i + 8 ≤ w) :
    byte (x.setWidth w) i = byte x i := by
  apply BitVec.eq_of_getLsbD_eq
  intro j hj
  rw [getLsbD_byte, getLsbD_byte, BitVec.getLsbD_setWidth]
  simp [hj, show 8 * i + j < w by omega]

theorem byte_ushiftRight (x : BitVec k) (i l : ℕ) : byte (x >>> (8 * l)) i = byte x (l + i) := by
  apply BitVec.eq_of_getLsbD_eq
  intro j hj
  rw [getLsbD_byte, getLsbD_byte, BitVec.getLsbD_ushiftRight,
    show 8 * l + (8 * i + j) = 8 * (l + i) + j by omega]

theorem byte_shiftLeft (x : BitVec k) (l : ℕ) {i : ℕ} (hi : 8 * i + 8 ≤ k) :
    byte (x <<< (8 * l)) i = if i < l then 0 else byte x (i - l) := by
  apply BitVec.eq_of_getLsbD_eq
  intro j hj
  rw [getLsbD_byte, BitVec.getLsbD_shiftLeft]
  by_cases h : i < l
  · simp [h, show 8 * i + j < 8 * l by omega]
  · rw [if_neg h, getLsbD_byte]
    simp [hj, show 8 * i + j < k by omega, show ¬8 * i + j < 8 * l by omega,
      show 8 * i + j - 8 * l = 8 * (i - l) + j by omega]

end Bytes
