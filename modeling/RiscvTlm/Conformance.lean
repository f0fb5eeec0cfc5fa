import RiscvTlm.ArchState
import RiscvTlm.DecodeEncode
import RiscvTlm.Exceptions
import RiscvTlm.LoadsStores

/-!
# Conformance of the base set

One step of the simulator on a base instruction is the step of the manual, as long as the data it
accesses lies inside the memory. Each `exec` function is run to the state it leaves, and the value
it writes is compared with the one of the instruction set.
-/

namespace RiscvTlm

open Isa Bytes ByteMemory Prog ExtensionBase

variable {T : CpuType} {s s₁ t : System T} {w : BitVec 32} {i : Instr}

/-! ## Runs of the functions -/

section Shifts

variable {n : ℕ} (s) (x : BitVec n) {count : ℕ} (h : count < n)

include h

theorem run_shl : (shl x count).run s = .ok (x <<< count) s := by
  rw [shl, if_pos h]
  rfl

theorem run_ushr : (ushr x count).run s = .ok (x >>> count) s := by
  rw [ushr, if_pos h]
  rfl

theorem run_sshr : (sshr x count).run s = .ok (x.sshiftRight count) s := by
  rw [sshr, if_pos h]
  rfl

end Shifts

namespace BaseIsa

variable (w s)

theorem run_execOpImm (op : BitVec T.xlen → BitVec T.xlen → BitVec T.xlen) :
    (execOpImm w op).run s = .ok true
      (s.setReg (getRd w) (op (s.regs.getValue (getRs1 w)) (getImmI w T))) := rfl

theorem run_execOp (op : BitVec T.xlen → BitVec T.xlen → BitVec T.xlen) :
    (execOp w op).run s = .ok true
      (s.setReg (getRd w) (op (s.regs.getValue (getRs1 w)) (s.regs.getValue (getRs2 w)))) := rfl

variable {w s}

section ShiftImm

variable {rd rs1 : Reg} {count : ℕ} {op : BitVec T.xlen → ℕ → Sim T (BitVec T.xlen)}
  {v : BitVec T.xlen} (hrd : getRd w = rd.toNat) (hrs1 : getRs1 w = rs1.toNat)
  (h : (op (registers s rs1) count).run s = .ok v s)

include hrd hrs1 h

theorem run_execShiftImm {shift : ℕ} (hc : shift = count) :
    (execShiftImm w shift op).run s = .ok true (s.setReg rd.toNat v) := by
  have h' : (op (s.regs.getValue rs1.toNat) count).run s = .ok v s := h
  rw [execShiftImm, run_bind_ok (run_getValue s _), hrs1, hc, run_bind_ok h', hrd]
  rfl

/-- An amount below the limit passes the check. -/
theorem run_execShiftImmChecked {rs2 limit mask : ℕ} (hl : rs2 < limit)
    (hc : rs2 &&& mask = count) :
    (execShiftImmChecked w rs2 limit mask op).run s = .ok true (s.setReg rd.toNat v) := by
  rw [execShiftImmChecked, if_neg (not_le.mpr hl)]
  exact run_execShiftImm hrd hrs1 h hc

end ShiftImm

theorem run_execShift {mask : BitVec T.xlen} {op : BitVec T.xlen → ℕ → Sim T (BitVec T.xlen)}
    {v : BitVec T.xlen} (h : (op (s.regs.getValue (getRs1 w))
      (s.regs.getValue (getRs2 w) &&& mask).toNat).run s = .ok v s) :
    (execShift w mask op).run s = .ok true (s.setReg (getRd w) v) := by
  rw [execShift, run_bind_ok (run_getValue s _), run_bind_ok (run_getValue s _), run_bind_ok h]
  rfl

theorem run_shiftWord {shift : BitVec 32 → ℕ → Sim T (BitVec 32)} {x : BitVec T.xlen} {count : ℕ}
    {v : BitVec 32} (h : (shift (x.setWidth 32) count).run s = .ok v s) :
    (shiftWord shift x count).run s = .ok (v.signExtend T.xlen) s := by
  rw [shiftWord, run_bind_ok h]
  rfl

theorem run_execBranch (cond : BitVec T.xlen → BitVec T.xlen → Bool) :
    (execBranch w cond).run s = .ok true
      (if cond (s.regs.getValue (getRs1 w)) (s.regs.getValue (getRs2 w)) then
        s.setPC (s.regs.registerPC + getImmB w T)
      else { s with regs := s.regs.incPC }) := by
  rw [execBranch, run_bind_ok (run_getValue s _), run_bind_ok (run_getValue s _)]
  split <;> rfl

end BaseIsa

/-! ## Words of a register -/

section Words

variable (x y : BitVec T.xlen)

/-- The mask of the low word. -/
theorem setWidth_and_wordMask : (x &&& 0xFFFFFFFF#T.xlen).setWidth 32 = x.setWidth 32 := by
  have hm : (0xFFFFFFFF#T.xlen).setWidth 32 = BitVec.allOnes 32 := by cases T <;> rfl
  rw [BitVec.setWidth_and, hm, BitVec.and_allOnes]

theorem word_add : ((x + y) &&& 0xFFFFFFFF#T.xlen).setWidth 32 =
    x.setWidth 32 + y.setWidth 32 := by
  rw [setWidth_and_wordMask, BitVec.setWidth_add _ _ T.le_xlen]

theorem word_sub : ((x - y) &&& 0xFFFFFFFF#T.xlen).setWidth 32 =
    x.setWidth 32 - y.setWidth 32 := by
  have h := BitVec.setWidth_add (x - y) y T.le_xlen
  rw [BitVec.sub_add_cancel] at h
  rw [setWidth_and_wordMask]
  exact eq_sub_of_add_eq h.symm

/-- The low five bits of a register. -/
theorem toNat_and_31 : (x &&& 0x1F#T.xlen).toNat = x.toNat % 32 := by
  have hm : (0x1F#T.xlen).toNat = 2 ^ 5 - 1 := by cases T <;> rfl
  rw [BitVec.toNat_and, hm, Nat.and_two_pow_sub_one_eq_mod]

theorem toNat_setWidth_mod : (x.setWidth 32).toNat % 32 = x.toNat % 32 := by
  rw [BitVec.toNat_setWidth]
  exact Nat.mod_mod_of_dvd _ (by decide)

end Words

/-! ## Instructions that write a register -/

/-- Executing the word of an instruction in `s` is the step of the manual and keeps the CSRs. -/
def Conforms (s : System T) (i : Instr) : Prop :=
  ∃ t, (execDecoded (encode i) (instrCode i)).run s = .ok false t ∧
    step (archState s) i = some (archState t) ∧ t.regs.csr = s.regs.csr

/-- An instruction that writes `rd` and goes on. -/
theorem conforms_of_set {code : OpCodes} {rd : Reg} {v : BitVec T.xlen}
    (hx : (execDecoded (encode i) (.base code)).run s =
      .ok false { s.setReg rd.toNat v with regs := (s.setReg rd.toNat v).regs.incPC })
    (hc : instrCode i = .base code)
    (hs : step (archState s) i = some ((archState s).set rd v).next) : Conforms s i := by
  refine ⟨_, hc ▸ hx, ?_, Registers.setValue_csr _ _ _⟩
  rw [hs, archState_incPC, archState_setReg]

/-- A function behind a switch case that goes on to the next instruction. -/
theorem run_next {code : OpCodes} {x : Sim T Bool} {b : Bool}
    (hc : BaseIsa.execInstruction w code = pcNext x) (hx : x.run s = .ok b t) :
    (execDecoded w (.base code)).run s = .ok false { t with regs := t.regs.incPC } := by
  have hp : (BaseIsa.execInstruction w code).run s = .ok (true, false) t := by
    rw [hc]
    exact run_pcNext hx
  exact run_execDecoded_base hp

/-- Its failure is the failure of the instruction. -/
theorem run_next_error {code : OpCodes} {x : Sim T Bool} {e : Fault}
    (hc : BaseIsa.execInstruction w code = pcNext x) (hx : x.run s = .error e t) :
    (execDecoded w (.base code)).run s = .error e t := by
  refine run_bind_error ?_
  rw [hc]
  exact run_bind_error hx

theorem run_forward {code : OpCodes} {x : Sim T Bool}
    (hc : BaseIsa.execInstruction w code = pcForward x) (hx : x.run s = .ok true t) :
    (execDecoded w (.base code)).run s = .ok false { t with regs := t.regs.incPC } := by
  have hp : (BaseIsa.execInstruction w code).run s = .ok (true, false) t := by
    rw [hc]
    exact run_pcForward hx
  exact run_execDecoded_base hp

/-- A function behind a switch case that sets the PC itself. -/
theorem run_set {code : OpCodes} {x : Sim T Bool}
    (hc : BaseIsa.execInstruction w code = pcSet x) (hx : x.run s = .ok true t) :
    (execDecoded w (.base code)).run s = .ok false t := by
  have hp : (BaseIsa.execInstruction w code).run s = .ok (false, false) t := by
    rw [hc]
    exact run_pcSet hx
  exact run_execDecoded_base hp

section SetRd

variable (s) (rd rs1 rs2 : Reg)

open BaseIsa

/-- The comparisons of the code are those of the numbers. -/
theorem ite_slt {n : ℕ} (a b : BitVec n) :
    (if a.slt b then 1 else 0 : BitVec n) = if a.toInt < b.toInt then 1 else 0 := by
  simp only [BitVec.slt_iff_toInt_lt]

theorem ite_ult {n : ℕ} (a b : BitVec n) :
    (if a.ult b then 1 else 0 : BitVec n) = if a.toNat < b.toNat then 1 else 0 := by
  simp only [BitVec.ult_iff_lt, BitVec.lt_def]

theorem conforms_opImm (op : ImmOp) (imm : BitVec 12) : Conforms s (.opImm op rd rs1 imm) := by
  have ho : Operands T (encode (.opImm op rd rs1 imm)) (.opImm op rd rs1 imm) :=
    operands_encode trivial
  have hrun (f : BitVec T.xlen → BitVec T.xlen → BitVec T.xlen)
      (hf : f (registers s rs1) (imm.signExtend T.xlen) =
        op.eval (registers s rs1) (imm.signExtend T.xlen)) :
      (execOpImm (encode (.opImm op rd rs1 imm)) f).run s =
        .ok true (s.setReg rd.toNat (op.eval (registers s rs1) (imm.signExtend T.xlen))) := by
    rw [run_execOpImm, ho.1, ho.2.1, ho.2.2, ← hf]
    rfl
  cases op with
  | addi => exact conforms_of_set (run_next rfl (hrun _ rfl)) rfl rfl
  | slti => exact conforms_of_set (run_next rfl (hrun _ (ite_slt _ _))) rfl rfl
  | sltiu => exact conforms_of_set (run_next rfl (hrun _ (ite_ult _ _))) rfl rfl
  | xori => exact conforms_of_set (run_next rfl (hrun _ rfl)) rfl rfl
  | ori => exact conforms_of_set (run_next rfl (hrun _ rfl)) rfl rfl
  | andi => exact conforms_of_set (run_next rfl (hrun _ rfl)) rfl rfl

/-- A shift by the low bits of a register, as many as a shift amount has. -/
theorem toNat_and_amount (x : BitVec T.xlen) :
    (x &&& BitVec.ofNat T.xlen (T.xlen - 1)).toNat = x.toNat % T.xlen := by
  rw [BitVec.toNat_and]
  cases T with
  | RV32 => exact Nat.and_two_pow_sub_one_eq_mod _ 5
  | RV64 => exact Nat.and_two_pow_sub_one_eq_mod _ 6

theorem xlen_pos (T : CpuType) : 0 < T.xlen := lt_of_lt_of_le (by decide) T.le_xlen

theorem conforms_op (op : RegOp) : Conforms s (.op op rd rs1 rs2) := by
  have ho : Operands T (encode (.op op rd rs1 rs2)) (.op op rd rs1 rs2) := operands_encode trivial
  have hrun (f : BitVec T.xlen → BitVec T.xlen → BitVec T.xlen)
      (hf : f (registers s rs1) (registers s rs2) = op.eval (registers s rs1) (registers s rs2)) :
      (execOp (encode (.op op rd rs1 rs2)) f).run s =
        .ok true (s.setReg rd.toNat (op.eval (registers s rs1) (registers s rs2))) := by
    rw [run_execOp, ho.1, ho.2.1, ho.2.2, ← hf]
    rfl
  have hshift (f : BitVec T.xlen → ℕ → Sim T (BitVec T.xlen))
      (hf : (f (registers s rs1) ((registers s rs2).toNat % T.xlen)).run s =
        .ok (op.eval (registers s rs1) (registers s rs2)) s) :
      (execShift (encode (.op op rd rs1 rs2)) (BitVec.ofNat T.xlen (T.xlen - 1)) f).run s =
        .ok true (s.setReg rd.toNat (op.eval (registers s rs1) (registers s rs2))) := by
    rw [← ho.1]
    refine run_execShift ?_
    rw [toNat_and_amount, ho.2.1, ho.2.2]
    exact hf
  have hlt : (registers s rs2).toNat % T.xlen < T.xlen := Nat.mod_lt _ (xlen_pos T)
  cases op with
  | add => exact conforms_of_set (run_next rfl (hrun _ rfl)) rfl rfl
  | sub => exact conforms_of_set (run_next rfl (hrun _ rfl)) rfl rfl
  | slt => exact conforms_of_set (run_next rfl (hrun _ (ite_slt _ _))) rfl rfl
  | sltu => exact conforms_of_set (run_next rfl (hrun _ (ite_ult _ _))) rfl rfl
  | xor => exact conforms_of_set (run_next rfl (hrun _ rfl)) rfl rfl
  | or => exact conforms_of_set (run_next rfl (hrun _ rfl)) rfl rfl
  | and => exact conforms_of_set (run_next rfl (hrun _ rfl)) rfl rfl
  | sll =>
    have hs := hshift shl (run_shl s _ hlt)
    cases T <;> exact conforms_of_set (run_next rfl hs) rfl rfl
  | srl =>
    have hs := hshift ushr (run_ushr s _ hlt)
    cases T <;> exact conforms_of_set (run_next rfl hs) rfl rfl
  | sra =>
    have hs := hshift sshr (run_sshr s _ hlt)
    cases T <;> exact conforms_of_set (run_next rfl hs) rfl rfl

/-- A mask of low bits does not touch an amount below it. -/
theorem and_mask_of_lt {n k : ℕ} (h : n < 2 ^ k) : n &&& (2 ^ k - 1) = n :=
  (Nat.and_two_pow_sub_one_eq_mod n k).trans (Nat.mod_eq_of_lt h)

theorem conforms_shiftImm (op : ShiftOp) {shamt : BitVec 6}
    (hd : (Instr.shiftImm op rd rs1 shamt).Defined T.xlen) :
    Conforms s (.shiftImm op rd rs1 shamt) := by
  obtain ⟨hrd, hrs1, hshamt, hslli, hrs2⟩ := operands_encode hd
  cases T with
  | RV32 =>
    have hlt := toNat_shamt_lt hd
    have hc : getRs2 (encode (.shiftImm op rd rs1 shamt)) &&& 0x1F = shamt.toNat := by
      rw [hrs2 rfl]
      exact and_mask_of_lt hlt
    cases op with
    | sll =>
      have hck : getShamt (encode (.shiftImm .sll rd rs1 shamt)) &&& 0x1F = shamt.toNat := by
        rw [hshamt]
        exact and_mask_of_lt hlt
      have hx := run_execShiftImmChecked hrd hrs1 (run_shl s _ hlt) (hshamt.trans_lt hlt) hck
      exact conforms_of_set (run_forward rfl hx) rfl rfl
    | srl =>
      have hx := run_execShiftImm hrd hrs1 (run_ushr s _ hlt) hc
      exact conforms_of_set (run_next rfl hx) rfl rfl
    | sra =>
      have hx := run_execShiftImm hrd hrs1 (run_sshr s _ hlt) hc
      exact conforms_of_set (run_next rfl hx) rfl rfl
  | RV64 =>
    have hlt : shamt.toNat < 2 ^ 6 := shamt.isLt
    have hc : getShamtSlli (encode (.shiftImm op rd rs1 shamt)) &&& 0x3F = shamt.toNat := by
      rw [hslli]
      exact and_mask_of_lt hlt
    cases op with
    | sll =>
      have hx := run_execShiftImmChecked hrd hrs1 (run_shl s _ hlt) (hslli.trans_lt hlt) hc
      exact conforms_of_set (run_forward rfl hx) rfl rfl
    | srl =>
      have hx := run_execShiftImm hrd hrs1 (run_ushr s _ hlt) hc
      exact conforms_of_set (run_next rfl hx) rfl rfl
    | sra =>
      have hx := run_execShiftImm hrd hrs1 (run_sshr s _ hlt) hc
      exact conforms_of_set (run_next rfl hx) rfl rfl

/-- The immediate of `ADDIW`, cut to a word. -/
theorem conforms_addiw (imm : BitVec 12) (hd : (Instr.addiw rd rs1 imm).Defined T.xlen) :
    Conforms s (.addiw rd rs1 imm) := by
  have ho := operands_encode hd
  have hx : (execADDIW (encode (.addiw rd rs1 imm))).run s = .ok true (s.setReg rd.toNat
      (((archState s).word rs1 + imm.signExtend 32).signExtend T.xlen)) := by
    rw [execADDIW, run_execOpImm, ho.1, ho.2.1, ho.2.2]
    simp only [setWidth_and_wordMask, BitField.setWidth_signExtend_of_le imm T.le_xlen]
    rfl
  exact conforms_of_set (run_next rfl hx) rfl rfl

theorem conforms_shiftImmW (op : ShiftOp) {shamt : BitVec 5}
    (hd : (Instr.shiftImmW op rd rs1 shamt).Defined T.xlen) :
    Conforms s (.shiftImmW op rd rs1 shamt) := by
  obtain ⟨hrd, hrs1, hshamt, hslli⟩ := operands_encode hd
  have hlt : shamt.toNat < 2 ^ 5 := shamt.isLt
  have hck : getShamt (encode (.shiftImmW op rd rs1 shamt)) &&& 0x1F = shamt.toNat := by
    rw [hshamt]
    exact and_mask_of_lt hlt
  cases op with
  | sll =>
    have hs : (shiftWord shl (registers s rs1) shamt.toNat).run s =
        .ok (((archState s).word rs1 <<< shamt.toNat).signExtend T.xlen) s :=
      run_shiftWord (run_shl s _ hlt)
    have hx := run_execShiftImmChecked hrd hrs1 hs (hshamt.trans_lt hlt) hck
    exact conforms_of_set (run_next rfl hx) rfl rfl
  | srl =>
    have hs : (shiftWord ushr (registers s rs1 &&& 0xFFFFFFFF#T.xlen) shamt.toNat).run s =
        .ok (((archState s).word rs1 >>> shamt.toNat).signExtend T.xlen) s := by
      refine run_shiftWord ?_
      rw [setWidth_and_wordMask]
      exact run_ushr s _ hlt
    have hx : (execSRLIW (encode (.shiftImmW .srl rd rs1 shamt))).run s = .ok true
        (s.setReg rd.toNat (((archState s).word rs1 >>> shamt.toNat).signExtend T.xlen)) :=
      run_execShiftImmChecked hrd hrs1 hs (hshamt.trans_lt hlt) hck
    exact conforms_of_set (run_next rfl hx) rfl rfl
  | sra =>
    have hs : (shiftWord sshr (registers s rs1) shamt.toNat).run s =
        .ok ((((archState s).word rs1).sshiftRight shamt.toNat).signExtend T.xlen) s :=
      run_shiftWord (run_sshr s _ hlt)
    have hc : getShamtSlli (encode (.shiftImmW .sra rd rs1 shamt)) &&& 0x1F = shamt.toNat := by
      rw [hslli]
      exact and_mask_of_lt hlt
    have hx := run_execShiftImm hrd hrs1 hs hc
    exact conforms_of_set (run_next rfl hx) rfl rfl

theorem conforms_opW (op : RegOpW) (hd : (Instr.opW op rd rs1 rs2).Defined T.xlen) :
    Conforms s (.opW op rd rs1 rs2) := by
  have ho := operands_encode hd
  have hrun (f : BitVec T.xlen → BitVec T.xlen → BitVec T.xlen)
      (hf : f (registers s rs1) (registers s rs2) =
        (op.eval ((archState s).word rs1) ((archState s).word rs2)).signExtend T.xlen) :
      (execOp (encode (.opW op rd rs1 rs2)) f).run s = .ok true (s.setReg rd.toNat
        ((op.eval ((archState s).word rs1) ((archState s).word rs2)).signExtend T.xlen)) := by
    rw [run_execOp, ho.1, ho.2.1, ho.2.2, ← hf]
    rfl
  have hshift (f : BitVec 32 → ℕ → Sim T (BitVec 32))
      (hf : (f ((archState s).word rs1) (((archState s).word rs2).toNat % 32)).run s =
        .ok (op.eval ((archState s).word rs1) ((archState s).word rs2)) s) :
      (execShift (encode (.opW op rd rs1 rs2)) 0x1F#T.xlen
        (fun val1 => shiftWord f (val1 &&& 0xFFFFFFFF#T.xlen))).run s =
        .ok true (s.setReg rd.toNat
          ((op.eval ((archState s).word rs1) ((archState s).word rs2)).signExtend T.xlen)) := by
    rw [← ho.1]
    refine run_execShift (run_shiftWord ?_)
    rw [toNat_and_31, setWidth_and_wordMask, ho.2.1, ho.2.2, ← toNat_setWidth_mod]
    exact hf
  have hlt : ((archState s).word rs2).toNat % 32 < 32 := Nat.mod_lt _ (by decide)
  cases op with
  | addw =>
    exact conforms_of_set (run_next rfl
      (hrun _ (congrArg (BitVec.signExtend T.xlen) (word_add _ _)))) rfl rfl
  | subw =>
    exact conforms_of_set (run_next rfl
      (hrun _ (congrArg (BitVec.signExtend T.xlen) (word_sub _ _)))) rfl rfl
  | sllw => exact conforms_of_set (run_next rfl (hshift shl (run_shl s _ hlt))) rfl rfl
  | srlw => exact conforms_of_set (run_next rfl (hshift ushr (run_ushr s _ hlt))) rfl rfl
  | sraw => exact conforms_of_set (run_next rfl (hshift sshr (run_sshr s _ hlt))) rfl rfl

end SetRd

/-! ## Jumps and branches -/

section Jumps

variable (s) (rd rs1 rs2 : Reg)

theorem conforms_lui (imm : BitVec 20) : Conforms s (.lui rd imm) := by
  have hx : (BaseIsa.execLUI (encode (.lui rd imm))).run s =
      .ok true (s.setReg rd.toNat (upperImm T.xlen imm)) := by
    have hrd : getRd (encode (.lui rd imm)) = rd.toNat := getRd_encodeU _ _ _
    rw [← hrd, ← upperImm_encodeU rd 0b0110111 imm]
    rfl
  exact conforms_of_set (run_next rfl hx) rfl rfl

theorem conforms_auipc (imm : BitVec 20) : Conforms s (.auipc rd imm) := by
  have hx : (BaseIsa.execAUIPC (encode (.auipc rd imm))).run s =
      .ok true (s.setReg rd.toNat (s.regs.registerPC + upperImm T.xlen imm)) := by
    have hrd : getRd (encode (.auipc rd imm)) = rd.toNat := getRd_encodeU _ _ _
    rw [← hrd, ← upperImm_encodeU rd 0b0010111 imm]
    rfl
  exact conforms_of_set (run_next rfl hx) rfl rfl

theorem conforms_jal (offset : BitVec 20) : Conforms s (.jal rd offset) := by
  have ho : Operands T (encode (.jal rd offset)) (.jal rd offset) := operands_encode trivial
  have hx : (BaseIsa.execJAL (encode (.jal rd offset))).run s = .ok true
      ((s.setPC (s.regs.registerPC + jumpOffset T.xlen offset)).setReg rd.toNat
        (s.regs.registerPC + 4)) := by
    rw [← ho.1, ← ho.2]
    rfl
  refine ⟨_, run_set rfl hx, ?_, Registers.setValue_csr _ _ _⟩
  rw [archState_setReg, archState_setPC, State.set_setPC]
  rfl

/-- The target is computed before the link register is written. -/
theorem conforms_jalr (imm : BitVec 12) : Conforms s (.jalr rd rs1 imm) := by
  have ho : Operands T (encode (.jalr rd rs1 imm)) (.jalr rd rs1 imm) := operands_encode trivial
  have hx : (BaseIsa.execJALR (encode (.jalr rd rs1 imm))).run s = .ok true
      ((s.setReg rd.toNat (s.regs.registerPC + 4)).setPC
        ((registers s rs1 + imm.signExtend T.xlen) &&& ~~~1#T.xlen)) := by
    rw [registers, ← ho.1, ← ho.2.1, ← ho.2.2]
    rfl
  refine ⟨_, run_set rfl hx, ?_, Registers.setValue_csr _ _ _⟩
  rw [archState_setPC, archState_setReg]
  rfl

theorem conforms_branch (op : BranchOp) (offset : BitVec 12) :
    Conforms s (.branch op rs1 rs2 offset) := by
  have ho : Operands T (encode (.branch op rs1 rs2 offset)) (.branch op rs1 rs2 offset) :=
    operands_encode trivial
  have hrun (f : BitVec T.xlen → BitVec T.xlen → Bool)
      (hf : f (registers s rs1) (registers s rs2) = op.taken (registers s rs1) (registers s rs2)) :
      (BaseIsa.execBranch (encode (.branch op rs1 rs2 offset)) f).run s = .ok true
        (if op.taken (registers s rs1) (registers s rs2) then
          s.setPC (s.regs.registerPC + branchOffset T.xlen offset)
        else { s with regs := s.regs.incPC }) := by
    rw [BaseIsa.run_execBranch, ho.1, ho.2.1, ho.2.2, ← hf]
    rfl
  have hstep : step (archState s) (.branch op rs1 rs2 offset) =
      some (archState (if op.taken (registers s rs1) (registers s rs2) then
          s.setPC (s.regs.registerPC + branchOffset T.xlen offset)
        else { s with regs := s.regs.incPC })) := by
    rw [apply_ite archState, archState_setPC, archState_incPC]
    rfl
  have hcsr : (if op.taken (registers s rs1) (registers s rs2) then
      s.setPC (s.regs.registerPC + branchOffset T.xlen offset)
        else { s with regs := s.regs.incPC }).regs.csr = s.regs.csr := by
    split <;> rfl
  cases op with
  | beq => exact ⟨_, run_set rfl (hrun _ rfl), hstep, hcsr⟩
  | bne =>
    have hne (a b : BitVec T.xlen) : (a != b) = decide (a ≠ b) := by
      rw [bne, beq_eq_decide, decide_not]
    exact ⟨_, run_set rfl (hrun _ (hne _ _)), hstep, hcsr⟩
  | blt => exact ⟨_, run_set rfl (hrun _ rfl), hstep, hcsr⟩
  | bge => exact ⟨_, run_set rfl (hrun _ rfl), hstep, hcsr⟩
  | bltu => exact ⟨_, run_set rfl (hrun _ rfl), hstep, hcsr⟩
  | bgeu => exact ⟨_, run_set rfl (hrun _ rfl), hstep, hcsr⟩

end Jumps

/-! ## Loads and stores -/

section Memory

variable (s) (rd rs1 rs2 : Reg) (imm : BitVec 12)

/-- The load of the code that executes a load. -/
def loadOp : Isa.LoadOp → RiscvTlm.LoadOp
  | .lb => .LB
  | .lh => .LH
  | .lw => .LW
  | .ld => .LD
  | .lbu => .LBU
  | .lhu => .LHU
  | .lwu => .LWU

/-- The store of the code that executes a store. -/
def storeOpOf : Isa.StoreOp → RiscvTlm.StoreOp
  | .sb => .SB
  | .sh => .SH
  | .sw => .SW
  | .sd => .SD

theorem conforms_load (op : Isa.LoadOp) (hd : (Instr.load op rd rs1 imm).Defined T.xlen)
    (hm : (registers s rs1 + imm.signExtend T.xlen).toNat + op.width ≤ Memory.SIZE) :
    Conforms s (.load op rd rs1 imm) := by
  have ho := operands_encode hd
  have ha : (loadOp op).addr (encode (.load op rd rs1 imm)) s =
      registers s rs1 + imm.signExtend T.xlen := by
    rw [BitVec.add_comm, registers, ← ho.2.1, ← ho.2.2]
    cases op <;> rfl
  have hrd : (loadOp op).rd (encode (.load op rd rs1 imm)) = rd.toNat := by
    rw [← ho.1]
    cases op <;> rfl
  have hv : ((loadOp op).extend ((loadOp op).found (encode (.load op rd rs1 imm)) s) :
      BitVec T.xlen) = op.value s.mem (registers s rs1 + imm.signExtend T.xlen).toNat := by
    have h8 (a : ℕ) : (read 64 s.mem a 1).setWidth 8 = read 8 s.mem a 1 :=
      setWidth_read s.mem a rfl (by decide)
    have h16 (a : ℕ) : (read 64 s.mem a 2).setWidth 16 = read 16 s.mem a 2 :=
      setWidth_read s.mem a rfl (by decide)
    rw [LoadOp.found, ha]
    cases op with
    | lb => exact congrArg (BitVec.signExtend T.xlen) (h8 _)
    | lh => exact congrArg (BitVec.signExtend T.xlen) (h16 _)
    | lw => exact congrArg (BitVec.signExtend T.xlen) (setWidth_read_word s.mem _)
    | lbu => exact congrArg (BitVec.setWidth T.xlen) (h8 _)
    | lhu => exact congrArg (BitVec.setWidth T.xlen) (h16 _)
    | lwu => exact congrArg (BitVec.setWidth T.xlen) (setWidth_read_word s.mem _)
    | ld =>
      obtain rfl := xlen_eq_64.mp hd
      exact (BitVec.setWidth_eq _).trans (BitVec.signExtend_eq _).symm
  have hx := (loadOp op).run_exec (encode (.load op rd rs1 imm)) s (by
    rw [ha]
    cases op <;> exact hm)
  rw [hrd, hv] at hx
  cases op <;> exact conforms_of_set (run_next rfl hx) rfl rfl

theorem conforms_store (op : Isa.StoreOp) (hd : (Instr.store op rs1 rs2 imm).Defined T.xlen)
    (hm : (registers s rs1 + imm.signExtend T.xlen).toNat + op.width ≤ Memory.SIZE) :
    Conforms s (.store op rs1 rs2 imm) := by
  have ho := operands_encode hd
  have ha : (storeOpOf op).addr (encode (.store op rs1 rs2 imm)) s =
      registers s rs1 + imm.signExtend T.xlen := by
    rw [BitVec.add_comm, registers, ← ho.1, ← ho.2.2]
    cases op <;> rfl
  have hval : (storeOpOf op).value (encode (.store op rs1 rs2 imm)) s =
      (registers s rs2).setWidth 64 := by
    rw [registers, ← ho.2.1]
    cases op <;> rfl
  have hwidth : (storeOpOf op).width = op.width := by cases op <;> rfl
  have hw : ((storeOpOf op).write (encode (.store op rs1 rs2 imm)) s).apply s.mem =
      (Write.ofNum (registers s rs1 + imm.signExtend T.xlen).toNat op.width
        (registers s rs2)).apply s.mem := by
    rw [RiscvTlm.StoreOp.write, ha, hval, hwidth]
    refine Write.ofNum_congr fun k hk => byte_setWidth _ ?_
    have h8 : op.width ≤ 8 := by cases op <;> decide
    omega
  have hm' : ((storeOpOf op).addr (encode (.store op rs1 rs2 imm)) s).toNat +
      (storeOpOf op).width ≤ Memory.SIZE := by
    rw [ha, hwidth]
    exact hm
  have hx := (storeOpOf op).run_exec (encode (.store op rs1 rs2 imm)) s hm'
  rw [hw] at hx
  have hstep : step (archState s) (.store op rs1 rs2 imm) = some (archState
      { s.setMem ((Write.ofNum (registers s rs1 + imm.signExtend T.xlen).toNat op.width
        (registers s rs2)).apply s.mem) with regs := s.regs.incPC }) := rfl
  cases op <;> exact ⟨_, run_next rfl hx, hstep, rfl⟩

end Memory

/-! ## The base set -/

theorem conforms_of_isBase (hd : i.Defined T.xlen) (hb : isBase i = true)
    (hm : ∀ a size, access (registers s) i = some (a, size) → a.toNat + size ≤ Memory.SIZE) :
    Conforms s i := by
  cases i with
  | lui rd imm => exact conforms_lui s rd imm
  | auipc rd imm => exact conforms_auipc s rd imm
  | jal rd offset => exact conforms_jal s rd offset
  | jalr rd rs1 imm => exact conforms_jalr s rd rs1 imm
  | branch op rs1 rs2 offset => exact conforms_branch s rs1 rs2 op offset
  | load op rd rs1 imm => exact conforms_load s rd rs1 imm op hd (hm _ _ rfl)
  | store op rs1 rs2 imm => exact conforms_store s rs1 rs2 imm op hd (hm _ _ rfl)
  | opImm op rd rs1 imm => exact conforms_opImm s rd rs1 op imm
  | shiftImm op rd rs1 shamt => exact conforms_shiftImm s rd rs1 op hd
  | op op rd rs1 rs2 => exact conforms_op s rd rs1 rs2 op
  | addiw rd rs1 imm => exact conforms_addiw s rd rs1 imm hd
  | shiftImmW op rd rs1 shamt => exact conforms_shiftImmW s rd rs1 op hd
  | opW op rd rs1 rs2 => exact conforms_opW s rd rs1 rs2 op hd
  | _ => cases hb

/-- The fetch changes nothing that the instruction set sees. -/
theorem archState_fetch (h : fetch.run s = .ok w s₁) : archState s₁ = archState s := by
  obtain ⟨hregs, -, -, hmem⟩ := fetch_frame h
  refine State.ext (funext fun r => ?_) ?_ ?_
  · rw [archState_x, archState_x, registers, registers, hregs]
  · rw [archState_pc, archState_pc, hregs]
  · exact congrArg Memory.mem hmem

/-- A whole step on the word of a base instruction. -/
theorem cpuStep_conforms (hf : fetch.run s = .ok (encode i) s₁) (hd : i.Defined T.xlen)
    (hb : isBase i = true)
    (hm : ∀ a size, access (registers s) i = some (a, size) → a.toNat + size ≤ Memory.SIZE) :
    ∃ t, cpuStep.run s = .ok false t ∧ step (archState s) i = some (archState t) := by
  have harch := archState_fetch hf
  have hm₁ : ∀ a size, access (registers s₁) i = some (a, size) → a.toNat + size ≤ Memory.SIZE := by
    rw [← archState_x, harch]
    exact hm
  obtain ⟨t, ht, hs, -⟩ := conforms_of_isBase hd hb hm₁
  refine ⟨t, ?_, harch ▸ hs⟩
  rw [run_cpuStep hf, decodeCascade_encode]
  exact ht

/-- RV32I: every step on a base instruction is the one of the manual. -/
theorem conforms_rv32i {s s₁ : System .RV32} (hf : fetch.run s = .ok (encode i) s₁)
    (hd : i.Defined 32) (hb : isBase i = true)
    (hm : ∀ a size, access (registers s) i = some (a, size) → a.toNat + size ≤ Memory.SIZE) :
    ∃ t, cpuStep.run s = .ok false t ∧ step (archState s) i = some (archState t) :=
  cpuStep_conforms hf hd hb hm

/-- `sw x2, 8(x0)`. -/
theorem conforms_rv32i_sw :
    ∃ t, cpuStep.run (start .RV32 [encode (.store .sw 0 2 8)]) = .ok false t ∧
      step (archState (start .RV32 [encode (.store .sw 0 2 8)])) (.store .sw 0 2 8) =
        some (archState t) := by
  refine conforms_rv32i rfl (by decide) rfl fun a size h => ?_
  cases h
  decide

/-- RV64I: every step on a base instruction is the one of the manual. -/
theorem conforms_rv64i {s s₁ : System .RV64} (hf : fetch.run s = .ok (encode i) s₁)
    (hd : i.Defined 64) (hb : isBase i = true)
    (hm : ∀ a size, access (registers s) i = some (a, size) → a.toNat + size ≤ Memory.SIZE) :
    ∃ t, cpuStep.run s = .ok false t ∧ step (archState s) i = some (archState t) :=
  cpuStep_conforms hf hd hb hm

/-- `ld x1, 8(x0)`. -/
theorem conforms_rv64i_ld :
    ∃ t, cpuStep.run (start .RV64 [encode (.load .ld 1 0 8)]) = .ok false t ∧
      step (archState (start .RV64 [encode (.load .ld 1 0 8)])) (.load .ld 1 0 8) =
        some (archState t) := by
  refine conforms_rv64i rfl (by decide) rfl fun a size h => ?_
  cases h
  decide

end RiscvTlm
