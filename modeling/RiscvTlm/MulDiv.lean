import Mathlib.Algebra.Order.Ring.Int
import RiscvTlm.Conformance
import RiscvTlm.Isa.Multiply

/-!
# Multiplication and division

The results of the M extension against those of the manual. With 32-bit registers every function
conforms. With 64-bit ones the guard of `DIV` and `REM` is for the least value of 32 bits, so that
the overflow reaches the division of the host; and `DIVW` and `DIVUW` write the result of their
special case without its sign.
-/

namespace RiscvTlm

open Isa Prog ExtensionBase

namespace MExtension

variable {T : CpuType} {w : BitVec 32} {s t : System T} {n : ℕ} {a b : BitVec n}

/-! ## Operations on bit vectors -/

/-- The high half of a product of two integers of twice the width. -/
theorem mulHigh_ofInt (p q : ℤ) :
    mulHigh (BitVec.ofInt (2 * n) p) (BitVec.ofInt (2 * n) q) = highHalf n (p * q) := by
  have hpos : (0 : ℤ) < 2 ^ n := pow_pos (by decide) n
  have hk : ((2 ^ (2 * n) : ℕ) : ℤ) = 2 ^ n * 2 ^ n := by
    rw [two_mul, pow_add]
    push_cast
    rfl
  have hdiv (m : ℤ) : m % (2 ^ n * 2 ^ n) / 2 ^ n % 2 ^ n = m / 2 ^ n % 2 ^ n := by
    rw [Int.emod_def m, mul_assoc, Int.sub_mul_ediv_left _ _ hpos.ne',
      Int.sub_mul_emod_self_left]
  apply BitVec.eq_of_toNat_eq
  rw [mulHigh, ← BitVec.ofInt_mul, highHalf, BitVec.toNat_setWidth, BitVec.toNat_ushiftRight,
    BitVec.toNat_ofInt, BitVec.toNat_ofInt, Nat.shiftRight_eq_div_pow, hk]
  apply Int.ofNat.inj
  have h1 := Int.emod_nonneg (p * q) (mul_pos hpos hpos).ne'
  have h2 := Int.emod_nonneg (p * q / 2 ^ n) hpos.ne'
  show ((_ : ℕ) : ℤ) = ((_ : ℕ) : ℤ)
  push_cast
  rw [Int.toNat_of_nonneg h1, Int.toNat_of_nonneg h2]
  exact hdiv _

theorem setWidth_eq_ofInt (k : ℕ) (a : BitVec n) : a.setWidth k = BitVec.ofInt k a.toNat := by
  rw [BitVec.ofInt_natCast, BitVec.ofNat_toNat]

theorem eval_mulh (a b : BitVec n) :
    mulHigh (a.signExtend (2 * n)) (b.signExtend (2 * n)) = MulOp.mulh.eval a b :=
  mulHigh_ofInt _ _

theorem eval_mulhsu (a b : BitVec n) :
    mulHigh (a.signExtend (2 * n)) (b.setWidth (2 * n)) = MulOp.mulhsu.eval a b := by
  rw [setWidth_eq_ofInt]
  exact mulHigh_ofInt _ _

theorem eval_mulhu (a b : BitVec n) :
    mulHigh (a.setWidth (2 * n)) (b.setWidth (2 * n)) = MulOp.mulhu.eval a b := by
  rw [setWidth_eq_ofInt, setWidth_eq_ofInt]
  exact mulHigh_ofInt _ _

theorem eval_mul (a b : BitVec n) : MulOp.mul.eval a b = a * b := by
  rw [MulOp.eval, BitVec.ofInt_mul, BitVec.ofInt_toInt, BitVec.ofInt_toInt]

theorem sdiv_eq (a b : BitVec n) : a.sdiv b = BitVec.ofInt n (a.toInt.tdiv b.toInt) := by
  apply BitVec.eq_of_toInt_eq
  rw [BitVec.toInt_sdiv, BitVec.toInt_ofInt]

theorem srem_eq (a b : BitVec n) : a.srem b = BitVec.ofInt n (a.toInt.tmod b.toInt) := by
  rw [← BitVec.toInt_srem, BitVec.ofInt_toInt]

theorem udiv_eq (a b : BitVec n) : a / b = BitVec.ofNat n (a.toNat / b.toNat) := by
  rw [← BitVec.toNat_udiv, BitVec.ofNat_toNat, BitVec.setWidth_eq]

theorem umod_eq (a b : BitVec n) : a % b = BitVec.ofNat n (a.toNat % b.toNat) := by
  rw [← BitVec.toNat_umod, BitVec.ofNat_toNat, BitVec.setWidth_eq]

/-! ## Divisions of the host -/

theorem run_sdivHost (op : BitVec n → BitVec n → BitVec n) (h0 : b ≠ 0) (ho : ¬Overflows a b) :
    (sdivHost op a b).run s = .ok (op a b) s := by
  have h : ¬(b = 0 ∨ a = BitVec.intMin n ∧ b = -1) := not_or.mpr ⟨h0, ho⟩
  rw [sdivHost, if_neg h]
  rfl

theorem run_sdivHost_overflow (op : BitVec n → BitVec n → BitVec n) (ho : Overflows a b) :
    (sdivHost op a b).run s = .error .undefinedBehaviour s := by
  have h : b = 0 ∨ a = BitVec.intMin n ∧ b = -1 := .inr ho
  rw [sdivHost, if_pos h]
  rfl

theorem run_udivHost (op : BitVec n → BitVec n → BitVec n) (h0 : b ≠ 0) :
    (udivHost op a b).run s = .ok (op a b) s := by
  rw [udivHost, if_neg h0]
  rfl

section Guarded

variable {a b : BitVec T.xlen} {op : BitVec T.xlen → BitVec T.xlen → BitVec T.xlen}
  {byZero guarded v : BitVec T.xlen}

/-- The body that `DIV` and `REM` share. -/
theorem run_guarded (hb : b = 0 → byZero = v) (hg : b = -1 ∧ a = minInt32 T.xlen → guarded = v)
    (hv : b ≠ 0 → ¬Overflows a b → op a b = v) (ho : T = .RV32 ∨ ¬Overflows a b) :
    (if b = 0 then return byZero
      else if b = -1 ∧ a = minInt32 T.xlen then return guarded
      else sdivHost op a b : Sim T (BitVec T.xlen)).run s = .ok v s := by
  split
  next h0 =>
    rw [← hb h0]
    rfl
  next h0 =>
    split
    next h =>
      rw [← hg h]
      rfl
    next h =>
      have ho' : ¬Overflows a b := by
        rcases ho with rfl | ho
        · exact fun ho => h ⟨ho.2, ho.1⟩
        · exact ho
      rw [← hv h0 ho']
      exact run_sdivHost op h0 ho'

end Guarded

theorem run_guarded_overflow {a b : BitVec 64} {op : BitVec 64 → BitVec 64 → BitVec 64}
    {byZero guarded : BitVec 64} {s : System .RV64} (ho : Overflows a b) :
    (if b = 0 then return byZero
      else if b = -1 ∧ a = minInt32 64 then return guarded
      else sdivHost op a b : Sim .RV64 (BitVec 64)).run s = .error .undefinedBehaviour s := by
  obtain ⟨rfl, rfl⟩ := ho
  rw [if_neg (by decide), if_neg (by decide)]
  exact run_sdivHost_overflow op ⟨rfl, rfl⟩

/-! ## The functions of both widths -/

/-- The function returns with the result of the manual in `rd`. -/
def MulDone (w : BitVec 32) (op : MulOp) (s : System T) : Prop :=
  (execInstruction w (mulCode op)).run s = .ok true
    (s.setReg (getRd w) (op.eval (s.regs.getValue (getRs1 w)) (s.regs.getValue (getRs2 w))))

theorem run_execOp (code : OpMCodes) {op : BitVec T.xlen → BitVec T.xlen → Sim T (BitVec T.xlen)}
    {v : BitVec T.xlen} (hc : execInstruction w code = execOp w op >>= fun _ => pure true)
    (h : (op (s.regs.getValue (getRs1 w)) (s.regs.getValue (getRs2 w))).run s = .ok v s) :
    (execInstruction w code).run s = .ok true (s.setReg (getRd w) v) := by
  have hx : (execOp w op).run s = .ok () (s.setReg (getRd w) v) := by
    rw [execOp, run_bind_ok (run_getValue s _), run_bind_ok (run_getValue s _), run_bind_ok h]
    rfl
  rw [hc, run_bind_ok hx]
  rfl

theorem run_execOp_error (code : OpMCodes) {e : Fault}
    {op : BitVec T.xlen → BitVec T.xlen → Sim T (BitVec T.xlen)}
    (hc : execInstruction w code = execOp w op >>= fun _ => pure true)
    (h : (op (s.regs.getValue (getRs1 w)) (s.regs.getValue (getRs2 w))).run s = .error e s) :
    (execInstruction w code).run s = .error e s := by
  have hx : (execOp w op).run s = .error e s := by
    rw [execOp, run_bind_ok (run_getValue s _), run_bind_ok (run_getValue s _)]
    exact run_bind_error h
  rw [hc]
  exact run_bind_error hx

/-- The special case of the guard has the result of the manual. -/
theorem eval_of_guard {a b : BitVec T.xlen} (h : b = -1 ∧ a = minInt32 T.xlen) :
    0x80000000#T.xlen = MulOp.div.eval a b ∧ 0 = MulOp.rem.eval a b := by
  obtain ⟨rfl, rfl⟩ := h
  cases T <;> decide

/-- Every function conforms except for the overflow with 64-bit registers. -/
theorem mulDone_of {op : MulOp} (h : T = .RV32 ∨ ¬((op = .div ∨ op = .rem) ∧
    Overflows (s.regs.getValue (getRs1 w)) (s.regs.getValue (getRs2 w)))) : MulDone w op s := by
  cases op with
  | mul =>
    refine run_execOp .OP_M_MUL rfl ?_
    rw [eval_mul]
    rfl
  | mulh =>
    refine run_execOp .OP_M_MULH rfl ?_
    rw [← eval_mulh]
    rfl
  | mulhsu =>
    refine run_execOp .OP_M_MULHSU rfl ?_
    rw [← eval_mulhsu]
    rfl
  | mulhu =>
    refine run_execOp .OP_M_MULHU rfl ?_
    rw [← eval_mulhu]
    rfl
  | div =>
    refine run_execOp .OP_M_DIV rfl (run_guarded (fun h0 => ?_) (fun hg => (eval_of_guard hg).1)
      (fun h0 ho => ?_) (h.imp_right fun h ho => h ⟨.inl rfl, ho⟩))
    · rw [MulOp.eval, if_pos h0]
    · rw [MulOp.eval, if_neg h0, if_neg ho, sdiv_eq]
  | rem =>
    refine run_execOp .OP_M_REM rfl (run_guarded (fun h0 => ?_) (fun hg => (eval_of_guard hg).2)
      (fun h0 ho => ?_) (h.imp_right fun h ho => h ⟨.inr rfl, ho⟩))
    · rw [MulOp.eval, if_pos h0]
    · rw [MulOp.eval, if_neg h0, if_neg ho, srem_eq]
  | divu =>
    refine run_execOp .OP_M_DIVU rfl ?_
    rw [MulOp.eval]
    split
    next h0 => rfl
    next h0 =>
      rw [← udiv_eq]
      exact run_udivHost _ h0
  | remu =>
    refine run_execOp .OP_M_REMU rfl ?_
    rw [MulOp.eval]
    split
    next h0 => rfl
    next h0 =>
      rw [← umod_eq]
      exact run_udivHost _ h0

/-- With 32-bit registers every function writes the result of the manual, and no division of the
host is undefined. -/
theorem mulDone_rv32 (w : BitVec 32) (op : MulOp) (s : System .RV32) : MulDone w op s :=
  mulDone_of (.inl rfl)

/-- The wide guard lets the overflow through to the host. -/
theorem not_mulDone_of_overflows {w : BitVec 32} {op : MulOp} {s : System .RV64}
    (hop : op = .div ∨ op = .rem)
    (ho : Overflows (s.regs.getValue (getRs1 w)) (s.regs.getValue (getRs2 w))) :
    ¬MulDone w op s := by
  intro hm
  rcases hop with rfl | rfl
  · have he := run_execOp_error .OP_M_DIV rfl (run_guarded_overflow ho)
    cases hm.symm.trans he
  · have he := run_execOp_error .OP_M_REM rfl (run_guarded_overflow ho)
    cases hm.symm.trans he

/-- With 64-bit registers every function does, except `DIV` and `REM` of the least value by `-1`. -/
theorem mulDone_rv64_iff (w : BitVec 32) (op : MulOp) (s : System .RV64) :
    MulDone w op s ↔ ¬((op = .div ∨ op = .rem) ∧
      Overflows (s.regs.getValue (getRs1 w)) (s.regs.getValue (getRs2 w))) :=
  ⟨fun hm h => not_mulDone_of_overflows h.1 h.2 hm, fun h => mulDone_of (.inr h)⟩

/-- `div x5, x1, x2` of the least value by `-1`. -/
theorem not_mulDone_div :
    ¬MulDone (encode (.mul .div 5 1 2)) .div
      (((start .RV64 []).setReg 1 0x8000000000000000).setReg 2 0xFFFFFFFFFFFFFFFF) :=
  not_mulDone_of_overflows (.inl rfl) (by decide)

/-! ## Word operations -/

/-- The function of the 64-bit registers writes the sign extension of what the one of the 32-bit
registers writes. -/
def WordAgrees (w : BitVec 32) (op : MulOpW) (s : System .RV64) (u : System .RV32) : Prop :=
  ∃ v : BitVec 32,
    (execInstruction w (mulCode op.narrow)).run u = .ok true (u.setReg (getRd w) v) ∧
    (execInstruction w (mulWCode op)).run s = .ok true (s.setReg (getRd w) (v.signExtend 64))

/-- The operands of the special case of `DIVW` and `DIVUW`. -/
def LeastByAllOnes (a b : BitVec 32) : Prop := a = 0x80000000 ∧ b = 0xFFFFFFFF

theorem lowWord_eq (a : BitVec T.xlen) : lowWord a = a.setWidth 32 := setWidth_and_wordMask a

section WordOps

variable {a b v : BitVec 32} {s : System .RV64}

/-- The body that the divisions of words share. -/
theorem run_wordDiv {p : Prop} [Decidable p] {host : Sim .RV64 (BitVec 32)}
    {byZero guarded : BitVec 64} (hb : b = 0 → byZero = v.signExtend 64)
    (hg : p → guarded = v.signExtend 64) (hv : b ≠ 0 → ¬p → host.run s = .ok v s) :
    (if b = 0 then return byZero else if p then return guarded
      else return (← host).signExtend 64 : Sim .RV64 (BitVec 64)).run s =
      .ok (v.signExtend 64) s := by
  split
  next h0 =>
    rw [← hb h0]
    rfl
  next h0 =>
    split
    next h =>
      rw [← hg h]
      rfl
    next h =>
      rw [run_bind_ok (hv h0 h)]
      rfl

theorem eval_rem_neg_one (a : BitVec 32) : MulOp.rem.eval a (-1) = 0 := by
  rw [MulOp.eval, if_neg (by decide)]
  split
  · rfl
  · have h1 : (-1 : BitVec 32).toInt = -1 := by decide
    rw [h1, Int.tmod_neg, Int.tmod_one]
    rfl

/-- A word operation outside its special case. -/
theorem run_wordOp {op : MulOpW} (h : ¬((op = .divw ∨ op = .divuw) ∧ LeastByAllOnes
      (lowWord (s.regs.getValue (getRs1 w))) (lowWord (s.regs.getValue (getRs2 w))))) :
    (execInstruction w (mulWCode op)).run s = .ok true (s.setReg (getRd w)
      ((op.narrow.eval (lowWord (s.regs.getValue (getRs1 w)))
        (lowWord (s.regs.getValue (getRs2 w)))).signExtend 64)) := by
  cases op with
  | mulw =>
    refine run_execOp .OP_M_MULW rfl ?_
    rw [MulOpW.narrow, eval_mul]
    rfl
  | divw =>
    refine run_execOp .OP_M_DIVW rfl (run_wordDiv (fun h0 => ?_) (fun hg => ?_) fun h0 hg => ?_)
    · rw [h0]
      rfl
    · exact absurd ⟨.inl rfl, hg.2, hg.1⟩ h
    · have ho : ¬Overflows _ _ := fun ho => hg ⟨ho.2, ho.1⟩
      rw [MulOpW.narrow, MulOp.eval, if_neg h0, if_neg ho, ← sdiv_eq]
      exact run_sdivHost _ h0 ho
  | divuw =>
    refine run_execOp .OP_M_DIVUW rfl (run_wordDiv (fun h0 => ?_) (fun hg => ?_) fun h0 hg => ?_)
    · rw [h0]
      rfl
    · exact absurd ⟨.inr rfl, hg.2, hg.1⟩ h
    · rw [MulOpW.narrow, MulOp.eval, if_neg h0, ← udiv_eq]
      exact run_udivHost _ h0
  | remw =>
    refine run_execOp .OP_M_REMW rfl (run_wordDiv (fun h0 => ?_) (fun hg => ?_) fun h0 hg => ?_)
    · rw [h0]
      rfl
    · rw [hg, MulOpW.narrow, eval_rem_neg_one]
      rfl
    · have ho : ¬Overflows (lowWord (s.regs.getValue (getRs1 w))) _ := fun ho => hg ho.2
      rw [MulOpW.narrow, MulOp.eval, if_neg h0, if_neg ho, ← srem_eq]
      exact run_sdivHost _ h0 ho
  | remuw =>
    refine run_execOp .OP_M_REMUW rfl ?_
    dsimp only
    rw [MulOpW.narrow, MulOp.eval]
    split
    next h0 => rfl
    next h0 =>
      rw [← umod_eq, run_bind_ok (run_udivHost _ h0)]
      rfl

end WordOps

/-- In the special case the functions write `0x80000000`. -/
theorem run_special {op : MulOpW} {s : System .RV64} (hop : op = .divw ∨ op = .divuw)
    (h : LeastByAllOnes (lowWord (s.regs.getValue (getRs1 w)))
      (lowWord (s.regs.getValue (getRs2 w)))) :
    (execInstruction w (mulWCode op)).run s =
      .ok true (s.setReg (getRd w) 0x80000000) := by
  obtain ⟨ha, hb⟩ := h
  rcases hop with rfl | rfl
  · refine run_execOp .OP_M_DIVW rfl ?_
    dsimp only
    rw [ha, hb]
    rfl
  · refine run_execOp .OP_M_DIVUW rfl ?_
    dsimp only
    rw [ha, hb]
    rfl

theorem setReg_inj {n : ℕ} {v v' : BitVec T.xlen} (hn : n < 32) (h0 : n ≠ 0)
    (h : s.setReg n v = s.setReg n v') : v = v' := by
  have hv := getValue_setReg s v hn h0
  rw [h, getValue_setReg s v' hn h0] at hv
  exact hv.symm

section Agreement

variable {op : MulOpW} {s : System .RV64} {u : System .RV32}
  (h1 : u.regs.getValue (getRs1 w) = (s.regs.getValue (getRs1 w)).setWidth 32)
  (h2 : u.regs.getValue (getRs2 w) = (s.regs.getValue (getRs2 w)).setWidth 32)

include h1 h2

/-- The narrow function on the low words. -/
theorem run_narrow : (execInstruction w (mulCode op.narrow)).run u =
    .ok true (u.setReg (getRd w) (op.narrow.eval (lowWord (s.regs.getValue (getRs1 w)))
      (lowWord (s.regs.getValue (getRs2 w))))) := by
  have hu : MulDone w op.narrow u := mulDone_of (.inl rfl)
  rw [MulDone, h1, h2] at hu
  rw [lowWord_eq, lowWord_eq]
  exact hu

theorem not_wordAgrees (h0 : getRd w ≠ 0) (hop : op = .divw ∨ op = .divuw)
    (hl : LeastByAllOnes ((s.regs.getValue (getRs1 w)).setWidth 32)
      ((s.regs.getValue (getRs2 w)).setWidth 32)) : ¬WordAgrees w op s u := by
  rintro ⟨v, hv, hs⟩
  rw [← lowWord_eq, ← lowWord_eq] at hl
  have hrd := getRd_lt w
  have hu := hv.symm.trans (run_narrow h1 h2)
  have hw := hs.symm.trans (run_special hop hl)
  have hvu := setReg_inj hrd h0 (EStateM.Result.ok.inj hu).2
  have hvs := setReg_inj hrd h0 (EStateM.Result.ok.inj hw).2
  rw [hvu, hl.1, hl.2] at hvs
  rcases hop with rfl | rfl
  · exact absurd hvs (by decide)
  · exact absurd hvs (by decide)

/-- On the same low words, the word operations agree with the operations of the narrow registers
unless `DIVW` or `DIVUW` with a destination other than `x0` divides `0x80000000` by `0xFFFFFFFF`. -/
theorem wordAgrees_iff :
    WordAgrees w op s u ↔ getRd w = 0 ∨ ¬((op = .divw ∨ op = .divuw) ∧
      LeastByAllOnes ((s.regs.getValue (getRs1 w)).setWidth 32)
        ((s.regs.getValue (getRs2 w)).setWidth 32)) := by
  constructor
  · intro h
    by_contra hc
    rw [not_or, not_not] at hc
    exact not_wordAgrees h1 h2 hc.1 hc.2.1 hc.2.2 h
  · intro h
    have hu : (execInstruction w (mulCode op.narrow)).run u = _ := run_narrow h1 h2
    rw [← lowWord_eq, ← lowWord_eq] at h
    by_cases hl : (op = .divw ∨ op = .divuw) ∧
        LeastByAllOnes (lowWord (s.regs.getValue (getRs1 w))) (lowWord (s.regs.getValue (getRs2 w)))
    · have h0 : getRd w = 0 := h.resolve_right fun hn => hn hl
      have hs := run_special hl.1 hl.2
      rw [h0, setReg_zero] at hs hu
      refine ⟨0, ?_, ?_⟩
      · rw [h0, setReg_zero]
        exact hu
      · rw [h0, setReg_zero]
        exact hs
    · exact ⟨_, hu, run_wordOp hl⟩

end Agreement

/-- `remw x5, x1, x2` of `-7` by 2 on both widths. -/
theorem wordAgrees_remw : WordAgrees (encode (.mulW .remw 5 1 2)) .remw
    (((start .RV64 []).setReg 1 0x1FFFFFFF9).setReg 2 2)
    (((start .RV32 []).setReg 1 0xFFFFFFF9).setReg 2 2) :=
  (wordAgrees_iff (by decide) (by decide)).mpr (.inr fun h => nomatch h.1)

/-- `divw x5, x1, x2` of `0x80000000` by `0xFFFFFFFF`. -/
theorem not_wordAgrees_divw : ¬WordAgrees (encode (.mulW .divw 5 1 2)) .divw
    (((start .RV64 []).setReg 1 0x80000000).setReg 2 0xFFFFFFFF)
    (((start .RV32 []).setReg 1 0x80000000).setReg 2 0xFFFFFFFF) :=
  not_wordAgrees (by decide) (by decide) (by decide) (.inl rfl) ⟨by decide, by decide⟩

end MExtension

end RiscvTlm
