import RiscvTlm.Conformance

/-!
# Compressed instructions and their expansion

A compressed instruction against the 32-bit instruction it stands for, both executed by the code
from the same state. They agree except that the compressed one goes on, and links, two bytes later
instead of four. The RV64 code departs from this where a `std::uint32_t` cuts a target or a link
value and where a shift amount is extended with its sign.
-/

namespace RiscvTlm

open Isa BitField Prog

variable {T : CpuType} {s s₁ t : System T} {w : BitVec 32} {c : CInstr}

/-! ## What the two have in common -/

/-- The register that gets the address of the next instruction. -/
def linkReg : CInstr → Option Reg
  | .jal _ | .jalr _ => some 1
  | _ => none

/-- The instruction goes on to the next one. -/
def fallsThrough {n : ℕ} (s : Isa.State n) : CInstr → Bool
  | .jal _ | .j _ | .jr _ | .jalr _ | .ebreak => false
  | .beqz rs1 _ => s.x rs1.reg ≠ 0
  | .bnez rs1 _ => s.x rs1.reg = 0
  | _ => true

/-- From the state `s` the compressed instruction leads to `u` where its expansion leads to `v`. -/
structure Shortens {n : ℕ} (c : CInstr) (s u v : Isa.State n) : Prop where
  x : ∀ r, linkReg c ≠ some r → u.x r = v.x r
  link : ∀ r, linkReg c = some r → u.x r = s.pc + 2 ∧ v.x r = s.pc + 4
  next : fallsThrough s c = true → u.pc = s.pc + 2 ∧ v.pc = s.pc + 4
  target : fallsThrough s c = false → u.pc = v.pc
  mem : u.mem = v.mem

/-- The fault is an error the simulator reports. -/
def Fault.isReport : Fault → Bool
  | .scReportError .. => true
  | .undefinedBehaviour => false

/-- The outcomes, from a state `a`, of a compressed instruction and of its expansion: both return,
to states that differ as they should, or both fail in the same way and in the same state. -/
def Agree (c : CInstr) (a : Isa.State T.xlen) :
    (r₁ r₂ : EStateM.Result Fault (System T) Bool) → Prop
  | .ok _ u, .ok _ v => Shortens c a (archState u) (archState v) ∧ u.regs.csr = v.regs.csr
  | .error e u, .error f v =>
    e.isReport = f.isReport ∧ archState u = archState v ∧ u.regs.csr = v.regs.csr
  | _, _ => False

/-- The base set executes the expansion of a compressed instruction. -/
def runExpansion (c : CInstr) (s : System T) : EStateM.Result Fault (System T) Bool :=
  (execDecoded (encode c.expand) (decodeCascade T (encode c.expand))).run s

/-- The compressed instruction in the low half of `w`, executed in `s`, does what its expansion
does. -/
def ExpandsTo (w : BitVec 32) (c : CInstr) (s : System T) : Prop :=
  Agree c (archState s) ((execDecoded w (decodeCascade T w)).run s) (runExpansion c s)

/-! ## Instructions that write a register -/

theorem run_next_c {code : OpCCodes} {x : Sim T Bool} {b : Bool}
    (hc : CExtension.execInstruction w code = pcNext x) (hx : x.run s = .ok b t) :
    (execDecoded w (.c code)).run s = .ok false { t with regs := t.regs.incPCby2 } := by
  have hp : (CExtension.execInstruction w code).run s = .ok (true, false) t := by
    rw [hc]
    exact run_pcNext hx
  exact run_execDecoded_c hp

theorem run_next_c_error {code : OpCCodes} {x : Sim T Bool} {e : Fault}
    (hc : CExtension.execInstruction w code = pcNext x) (hx : x.run s = .error e t) :
    (execDecoded w (.c code)).run s = .error e t := by
  refine run_bind_error ?_
  rw [hc]
  exact run_bind_error hx

theorem run_forward_c {code : OpCCodes} {x : Sim T Bool}
    (hc : CExtension.execInstruction w code = pcForward x) (hx : x.run s = .ok true t) :
    (execDecoded w (.c code)).run s = .ok false { t with regs := t.regs.incPCby2 } := by
  have hp : (CExtension.execInstruction w code).run s = .ok (true, false) t := by
    rw [hc]
    exact run_pcForward hx
  exact run_execDecoded_c hp

theorem run_set_c {code : OpCCodes} {x : Sim T Bool}
    (hc : CExtension.execInstruction w code = pcSet x) (hx : x.run s = .ok true t) :
    (execDecoded w (.c code)).run s = .ok false t := by
  have hp : (CExtension.execInstruction w code).run s = .ok (false, false) t := by
    rw [hc]
    exact run_pcSet hx
  exact run_execDecoded_c hp

section Word

variable (hd : c.Defined T.xlen) (hw : w.setWidth 16 = c.encode)

include hd hw

theorem decodeCascade_compressed : decodeCascade T w = .c (compressedCode c) :=
  decodeCascade_c (decode_compressed hd hw) (opcode_compressed hw) (compressedCode_ne_error c)

/-- When both return, only the states count. -/
theorem expandsTo_iff_shortens {b : Bool} {u : Isa.State T.xlen}
    (hx : (execDecoded w (.c (compressedCode c))).run s = .ok b t)
    (hcsr : t.regs.csr = s.regs.csr) (hs : step (archState s) c.expand = some u)
    (hc : Conforms s c.expand) :
    ExpandsTo w c s ↔ Shortens c (archState s) (archState t) u := by
  obtain ⟨v, hv, hsv, hcv⟩ := hc
  obtain rfl : u = archState v := Option.some_inj.mp (hs.symm.trans hsv)
  rw [ExpandsTo, runExpansion, decodeCascade_compressed hd hw, decodeCascade_encode, hx, hv]
  exact and_iff_left (hcsr.trans hcv.symm)

/-- An instruction that writes `rd` and goes on. -/
theorem expandsTo_of_set {rd : Reg} {v : BitVec T.xlen} (hl : linkReg c = none)
    (hf : fallsThrough (archState s) c = true)
    (hx : (execDecoded w (.c (compressedCode c))).run s =
      .ok false { s.setReg rd.toNat v with regs := (s.setReg rd.toNat v).regs.incPCby2 })
    (hs : step (archState s) c.expand = some ((archState s).set rd v).next)
    (hc : Conforms s c.expand) : ExpandsTo w c s := by
  refine (expandsTo_iff_shortens hd hw hx (Registers.setValue_csr _ _ _) hs hc).mpr ?_
  have ha : archState { s.setReg rd.toNat v with regs := (s.setReg rd.toNat v).regs.incPCby2 } =
      (archState (s.setReg rd.toNat v)).setPC ((s.setReg rd.toNat v).regs.registerPC + 2) := rfl
  have hpc : (s.setReg rd.toNat v).regs.registerPC = s.regs.registerPC :=
    Registers.setValue_registerPC _ _ _
  rw [ha, hpc, archState_setReg]
  exact {
    x := fun _ _ => rfl
    link := fun r hr => by
      rw [hl] at hr
      cases hr
    next := fun _ => ⟨rfl, congrArg (· + 4) (State.set_pc _ _ _)⟩
    target := fun h => absurd (hf.symm.trans h) (by decide)
    mem := rfl }

/-- The compressed function has no result, its expansion has one. -/
theorem not_expandsTo_of_error {e : Fault}
    (hx : (execDecoded w (.c (compressedCode c))).run s = .error e t) (hc : Conforms s c.expand) :
    ¬ExpandsTo w c s := by
  obtain ⟨v, hv, -, -⟩ := hc
  rw [ExpandsTo, runExpansion, decodeCascade_compressed hd hw, decodeCascade_encode, hx, hv]
  exact id

end Word

/-! ### Immediates -/

section Immediates

variable (n : ℕ)

/-- The six-bit immediates, extended by the code to a word first and by the expansion to twelve
bits. -/
theorem signExtend_imm6 (imm : BitVec 6) :
    (imm.signExtend 32).signExtend n = (imm.signExtend 12).signExtend n := by
  rw [signExtend_signExtend_of_le imm (by decide), signExtend_signExtend_of_le imm (by decide)]

theorem signExtend_imm6_word (imm : BitVec 6) :
    imm.signExtend 32 = (imm.signExtend 12).signExtend 32 :=
  (signExtend_signExtend_of_le imm (by decide)).symm

theorem signExtend_imm16sp (imm : BitVec 6) :
    ((place 10 4 imm).signExtend 32).signExtend n =
      ((place 10 4 imm).signExtend 12).signExtend n := by
  rw [signExtend_signExtend_of_le _ (by decide), signExtend_signExtend_of_le _ (by decide)]

theorem signExtend_lui (imm : BitVec 6) :
    ((place 18 12 imm).signExtend 32).signExtend n = upperImm n (imm.signExtend 20) := by
  rw [upperImm, place_signExtend imm (by decide)]

theorem signExtend_branch (offset : BitVec 8) :
    ((place 9 1 offset).signExtend 32).signExtend n = branchOffset n (offset.signExtend 12) := by
  rw [branchOffset, place_signExtend offset (by decide),
    signExtend_signExtend_of_le _ (by decide), signExtend_signExtend_of_le _ (by decide)]

theorem signExtend_jump (offset : BitVec 11) :
    jumpOffset n (offset.signExtend 20) = (place 12 1 offset).signExtend n := by
  rw [jumpOffset, place_signExtend offset (by decide), signExtend_signExtend_of_le _ (by decide)]

end Immediates

/-! ### Operations -/

section Operations

variable {rd rs2 : RegC} {r r2 : Reg} {imm : BitVec 6}

theorem run_execOpImm_c (rd rs1 : ℕ) (imm : BitVec T.xlen)
    (op : BitVec T.xlen → BitVec T.xlen → BitVec T.xlen) (s : System T) :
    (CExtension.execOpImm rd rs1 imm op).run s =
      .ok true (s.setReg rd (op (s.regs.getValue rs1) imm)) := rfl

theorem run_execOp_c (rd rs2 : ℕ) (op : BitVec T.xlen → BitVec T.xlen → BitVec T.xlen)
    (s : System T) :
    (CExtension.execOp rd rs2 op).run s =
      .ok true (s.setReg rd (op (s.regs.getValue rd) (s.regs.getValue rs2))) := rfl

theorem expandsTo_addi (hd : (CInstr.addi r imm).Defined T.xlen)
    (hw : w.setWidth 16 = (CInstr.addi r imm).encode) : ExpandsTo w (.addi r imm) s := by
  have ho := coperands_encode hd hw
  have hx : (CExtension.execADDI w).run s = .ok true
      (s.setReg r.toNat (registers s r + (imm.signExtend 12).signExtend T.xlen)) := by
    rw [CExtension.execADDI, run_execOpImm_c, ho.1, ho.2, signExtend_imm6]
    rfl
  exact expandsTo_of_set hd hw rfl rfl (run_next_c rfl hx) rfl (conforms_opImm s r r .addi _)

theorem expandsTo_li (hd : (CInstr.li r imm).Defined T.xlen)
    (hw : w.setWidth 16 = (CInstr.li r imm).encode) : ExpandsTo w (.li r imm) s := by
  have ho := coperands_encode hd hw
  have hx : (CExtension.execLI w).run s = .ok true
      (s.setReg r.toNat (registers s 0 + (imm.signExtend 12).signExtend T.xlen)) := by
    rw [CExtension.execLI, run_execOpImm_c, ho.1, ho.2, signExtend_imm6]
    rfl
  exact expandsTo_of_set hd hw rfl rfl (run_next_c rfl hx) rfl (conforms_opImm s r 0 .addi _)

theorem expandsTo_andi (hd : (CInstr.andi rd imm).Defined T.xlen)
    (hw : w.setWidth 16 = (CInstr.andi rd imm).encode) : ExpandsTo w (.andi rd imm) s := by
  have ho := coperands_encode hd hw
  have hx : (CExtension.execANDI w).run s = .ok true
      (s.setReg rd.reg.toNat (registers s rd.reg &&& (imm.signExtend 12).signExtend T.xlen)) := by
    rw [CExtension.execANDI, run_execOpImm_c, ho.1, ho.2, signExtend_imm6]
    rfl
  exact expandsTo_of_set hd hw rfl rfl (run_next_c rfl hx) rfl
    (conforms_opImm s rd.reg rd.reg .andi _)

theorem expandsTo_addiw (hd : (CInstr.addiw r imm).Defined T.xlen)
    (hw : w.setWidth 16 = (CInstr.addiw r imm).encode) : ExpandsTo w (.addiw r imm) s := by
  have ho := coperands_encode hd hw
  have hx : (CExtension.execADDIW w).run s = .ok true (s.setReg r.toNat
      (((archState s).word r + (imm.signExtend 12).signExtend 32).signExtend T.xlen)) := by
    have hrun : (CExtension.execADDIW w).run s = .ok true (s.setReg (ExtensionBase.getRd w)
      (((s.regs.getValue (ExtensionBase.getRd w) &&& 0xFFFFFFFF#T.xlen).setWidth 32 +
        CExtension.getImmADDI w).signExtend T.xlen)) := rfl
    rw [hrun, ho.1, ho.2, setWidth_and_wordMask, signExtend_imm6_word]
    rfl
  exact expandsTo_of_set hd hw rfl rfl (run_next_c rfl hx) rfl (conforms_addiw s r r _ hd.1)

theorem expandsTo_addi4spn {uimm : BitVec 8} (hd : (CInstr.addi4spn rd uimm).Defined T.xlen)
    (hw : w.setWidth 16 = (CInstr.addi4spn rd uimm).encode) :
    ExpandsTo w (.addi4spn rd uimm) s := by
  have ho := coperands_encode hd hw
  have hx : (CExtension.execADDI4SPN w).run s = .ok true
      (s.setReg rd.reg.toNat (registers s 2 + (place 12 2 uimm).signExtend T.xlen)) := by
    have hne : (place 32 2 uimm).setWidth T.xlen ≠ 0 := by
      have hx := T.le_xlen
      rw [← place_zero, place_place uimm (by decide)]
      exact fun h => hd ((place_eq_zero_iff uimm (by omega)).mp h)
    rw [CExtension.execADDI4SPN, ho.2, if_neg hne, signExtend_displacement uimm _ (by decide),
      ho.1]
    rfl
  exact expandsTo_of_set hd hw rfl rfl (run_forward_c rfl hx) rfl
    (conforms_opImm s rd.reg 2 .addi _)

theorem expandsTo_addi16sp (hd : (CInstr.addi16sp imm).Defined T.xlen)
    (hw : w.setWidth 16 = (CInstr.addi16sp imm).encode) : ExpandsTo w (.addi16sp imm) s := by
  have ho := coperands_encode hd hw
  have hx : (CExtension.execADDI16SP w).run s = .ok true (s.setReg (2 : Reg).toNat
      (registers s 2 + ((place 10 4 imm).signExtend 12).signExtend T.xlen)) := by
    rw [CExtension.execADDI16SP, if_pos ho.1, ho.2, signExtend_imm16sp]
    rfl
  exact expandsTo_of_set hd hw rfl rfl (run_next_c rfl hx) rfl (conforms_opImm s 2 2 .addi _)

theorem expandsTo_lui (hd : (CInstr.lui r imm).Defined T.xlen)
    (hw : w.setWidth 16 = (CInstr.lui r imm).encode) : ExpandsTo w (.lui r imm) s := by
  have ho := coperands_encode hd hw
  have hx : (CExtension.execADDI16SP w).run s = .ok true
      (s.setReg r.toNat (upperImm T.xlen (imm.signExtend 20))) := by
    rw [CExtension.execADDI16SP, if_neg ho.2.1, ho.2.2, signExtend_lui, ho.1]
    rfl
  exact expandsTo_of_set hd hw rfl rfl (run_next_c rfl hx) rfl (conforms_lui s r _)

theorem expandsTo_mv (hd : (CInstr.mv r r2).Defined T.xlen)
    (hw : w.setWidth 16 = (CInstr.mv r r2).encode) : ExpandsTo w (.mv r r2) s := by
  have ho := coperands_encode hd hw
  have h0 : registers s 0 = 0 := Registers.getValue_zero s.regs
  have hx : (CExtension.execMV w).run s = .ok true
      (s.setReg r.toNat (registers s 0 + registers s r2)) := by
    rw [h0, zero_add, registers, ← ho.1, ← ho.2]
    rfl
  exact expandsTo_of_set hd hw rfl rfl (run_next_c rfl hx) rfl (conforms_op s r 0 r2 .add)

theorem expandsTo_add (hd : (CInstr.add r r2).Defined T.xlen)
    (hw : w.setWidth 16 = (CInstr.add r r2).encode) : ExpandsTo w (.add r r2) s := by
  have ho := coperands_encode hd hw
  have hx : (CExtension.execADD w).run s = .ok true
      (s.setReg r.toNat (registers s r + registers s r2)) := by
    rw [CExtension.execADD, run_execOp_c, ho.1, ho.2]
    rfl
  exact expandsTo_of_set hd hw rfl rfl (run_next_c rfl hx) rfl (conforms_op s r r r2 .add)

theorem run_execOp_short (s : System T) (op : BitVec T.xlen → BitVec T.xlen → BitVec T.xlen)
    (h1 : CExtension.getRs1p w = rd.reg.toNat) (h2 : CExtension.getRs2p w = rs2.reg.toNat) :
    (CExtension.execOp (CExtension.getRs1p w) (CExtension.getRs2p w) op).run s = .ok true
      (s.setReg rd.reg.toNat (op (registers s rd.reg) (registers s rs2.reg))) := by
  rw [run_execOp_c, h1, h2]
  rfl

theorem expandsTo_sub (hd : (CInstr.sub rd rs2).Defined T.xlen)
    (hw : w.setWidth 16 = (CInstr.sub rd rs2).encode) : ExpandsTo w (.sub rd rs2) s := by
  have ho := coperands_encode hd hw
  exact expandsTo_of_set hd hw rfl rfl (run_next_c rfl (run_execOp_short s _ ho.1 ho.2)) rfl
    (conforms_op s rd.reg rd.reg rs2.reg .sub)

theorem expandsTo_xor (hd : (CInstr.xor rd rs2).Defined T.xlen)
    (hw : w.setWidth 16 = (CInstr.xor rd rs2).encode) : ExpandsTo w (.xor rd rs2) s := by
  have ho := coperands_encode hd hw
  exact expandsTo_of_set hd hw rfl rfl (run_next_c rfl (run_execOp_short s _ ho.1 ho.2)) rfl
    (conforms_op s rd.reg rd.reg rs2.reg .xor)

theorem expandsTo_or (hd : (CInstr.or rd rs2).Defined T.xlen)
    (hw : w.setWidth 16 = (CInstr.or rd rs2).encode) : ExpandsTo w (.or rd rs2) s := by
  have ho := coperands_encode hd hw
  exact expandsTo_of_set hd hw rfl rfl (run_next_c rfl (run_execOp_short s _ ho.1 ho.2)) rfl
    (conforms_op s rd.reg rd.reg rs2.reg .or)

theorem expandsTo_and (hd : (CInstr.and rd rs2).Defined T.xlen)
    (hw : w.setWidth 16 = (CInstr.and rd rs2).encode) : ExpandsTo w (.and rd rs2) s := by
  have ho := coperands_encode hd hw
  exact expandsTo_of_set hd hw rfl rfl (run_next_c rfl (run_execOp_short s _ ho.1 ho.2)) rfl
    (conforms_op s rd.reg rd.reg rs2.reg .and)

theorem expandsTo_subw (hd : (CInstr.subw rd rs2).Defined T.xlen)
    (hw : w.setWidth 16 = (CInstr.subw rd rs2).encode) : ExpandsTo w (.subw rd rs2) s := by
  have ho := coperands_encode hd hw
  have hx : (CExtension.execSUBW w).run s = .ok true (s.setReg rd.reg.toNat
      (((archState s).word rd.reg - (archState s).word rs2.reg).signExtend T.xlen)) := by
    rw [CExtension.execSUBW, run_execOp_short s _ ho.1 ho.2, word_sub]
    rfl
  exact expandsTo_of_set hd hw rfl rfl (run_next_c rfl hx) rfl
    (conforms_opW s rd.reg rd.reg rs2.reg .subw hd)

theorem expandsTo_addw (hd : (CInstr.addw rd rs2).Defined T.xlen)
    (hw : w.setWidth 16 = (CInstr.addw rd rs2).encode) : ExpandsTo w (.addw rd rs2) s := by
  have ho := coperands_encode hd hw
  have hx : (CExtension.execADDW w).run s = .ok true (s.setReg rd.reg.toNat
      (((archState s).word rd.reg + (archState s).word rs2.reg).signExtend T.xlen)) := by
    rw [CExtension.execADDW, run_execOp_short s _ ho.1 ho.2, word_add]
    rfl
  exact expandsTo_of_set hd hw rfl rfl (run_next_c rfl hx) rfl
    (conforms_opW s rd.reg rd.reg rs2.reg .addw hd)

end Operations

/-! ### Shifts -/

section ShiftAmounts

variable {shamt : BitVec 6}

/-- A six-bit amount from 32 on, extended with its sign, is past every width. -/
theorem le_toNat_signExtend (n : ℕ) (h : ¬shamt.toNat < 32) :
    2 ^ n - 2 ^ 6 ≤ (shamt.signExtend n).toNat := by
  have hmsb : shamt.msb = true := by
    rw [BitVec.msb_eq_decide, decide_eq_true_iff]
    omega
  rw [BitVec.toNat_signExtend, hmsb, if_pos rfl]
  exact Nat.le_add_left _ _

theorem toNat_signExtend_of_lt {n : ℕ} (hn : 32 ≤ n) (h : shamt.toNat < 32) :
    (shamt.signExtend n).toNat = shamt.toNat := by
  have h6 : 6 ≤ n := by omega
  rw [signExtend_shamt h, BitVec.toNat_setWidth_of_le h6]

end ShiftAmounts

section Shifts

variable {n count : ℕ} (x : BitVec n) (h : ¬count < n) (s : System T)

include h

theorem run_ushr_error : (ushr x count).run s = .error .undefinedBehaviour s := by
  rw [ushr, if_neg h]
  rfl

theorem run_sshr_error : (sshr x count).run s = .error .undefinedBehaviour s := by
  rw [sshr, if_neg h]
  rfl

theorem run_shl_error : (shl x count).run s = .error .undefinedBehaviour s := by
  rw [shl, if_neg h]
  rfl

end Shifts

section ShiftInstructions

variable {rd : RegC} {r : Reg} {shamt : BitVec 6}

theorem run_execShiftImm_c {rd : ℕ} {op : BitVec T.xlen → ℕ → Sim T (BitVec T.xlen)}
    {v : BitVec T.xlen}
    (h : (op (s.regs.getValue rd) (CExtension.getImmADDI w).toNat).run s = .ok v s) :
    (CExtension.execShiftImm w rd op).run s = .ok true (s.setReg rd v) := by
  rw [CExtension.execShiftImm, run_bind_ok (run_getValue s _), run_bind_ok h]
  rfl

theorem run_execShiftImm_c_error {rd : ℕ} {op : BitVec T.xlen → ℕ → Sim T (BitVec T.xlen)}
    {e : Fault}
    (h : (op (s.regs.getValue rd) (CExtension.getImmADDI w).toNat).run s = .error e s) :
    (CExtension.execShiftImm w rd op).run s = .error e s := by
  rw [CExtension.execShiftImm, run_bind_ok (run_getValue s _)]
  exact run_bind_error h

/-- A shift whose function has a result exactly for the amounts below 32. -/
theorem expandsTo_shift {op : ShiftOp} {x : Sim T Bool} (hd : c.Defined T.xlen)
    (hw : w.setWidth 16 = c.encode)
    (hc : CExtension.execInstruction w (compressedCode c) = pcNext x)
    (he : c.expand = .shiftImm op r r shamt) (hl : linkReg c = none)
    (hf : fallsThrough (archState s) c = true)
    (hlt : shamt.toNat < 32 → x.run s =
      .ok true (s.setReg r.toNat (op.eval (registers s r) shamt.toNat)))
    (hge : ¬shamt.toNat < 32 → x.run s = .error .undefinedBehaviour s) :
    ExpandsTo w c s ↔ shamt.toNat < 32 := by
  have hconf : Conforms s c.expand := by
    have hde := CInstr.expand_defined hd
    rw [he] at hde ⊢
    exact conforms_shiftImm s r r op hde
  by_cases h : shamt.toNat < 32
  · refine iff_of_true (expandsTo_of_set hd hw hl hf (run_next_c hc (hlt h)) ?_ hconf) h
    rw [he]
    rfl
  · have hx := run_next_c_error hc (hge h)
    exact iff_of_false (not_expandsTo_of_error hd hw hx hconf) h

theorem not_lt_toNat_signExtend (h : ¬shamt.toNat < 32) {n : ℕ} (hn : 32 ≤ n) :
    ¬(shamt.signExtend n).toNat < T.xlen := by
  have hle := le_toNat_signExtend n h
  have hx := T.xlen_le
  have hp : 2 ^ 32 ≤ 2 ^ n := Nat.pow_le_pow_right (by decide) hn
  omega

theorem expandsTo_srli_iff (hd : (CInstr.srli rd shamt).Defined T.xlen)
    (hw : w.setWidth 16 = (CInstr.srli rd shamt).encode) :
    ExpandsTo w (.srli rd shamt) s ↔ shamt.toNat < 32 := by
  have hr : CExtension.getRs1p w = rd.reg.toNat := getRs1p_fieldsCBI hw
  have hi : CExtension.getImmADDI w = shamt.signExtend 32 := getImmADDI_fieldsCBI hw
  refine expandsTo_shift hd hw rfl rfl rfl rfl (fun h => ?_) fun h => ?_
  · rw [← hr]
    refine run_execShiftImm_c ?_
    rw [hi, hr, toNat_signExtend_of_lt le_rfl h]
    exact run_ushr s _ (h.trans_le T.le_xlen)
  · refine run_execShiftImm_c_error (run_ushr_error _ ?_ s)
    rw [hi]
    exact not_lt_toNat_signExtend h le_rfl

theorem expandsTo_srai_iff (hd : (CInstr.srai rd shamt).Defined T.xlen)
    (hw : w.setWidth 16 = (CInstr.srai rd shamt).encode) :
    ExpandsTo w (.srai rd shamt) s ↔ shamt.toNat < 32 := by
  have hr : CExtension.getRs1p w = rd.reg.toNat := getRs1p_fieldsCBI hw
  have hi : CExtension.getImmADDI w = shamt.signExtend 32 := getImmADDI_fieldsCBI hw
  refine expandsTo_shift hd hw rfl rfl rfl rfl (fun h => ?_) fun h => ?_
  · rw [← hr]
    refine run_execShiftImm_c ?_
    rw [hi, hr, toNat_signExtend_of_lt le_rfl h]
    exact run_sshr s _ (h.trans_le T.le_xlen)
  · refine run_execShiftImm_c_error (run_sshr_error _ ?_ s)
    rw [hi]
    exact not_lt_toNat_signExtend h le_rfl

theorem expandsTo_slli_iff (hd : (CInstr.slli r shamt).Defined T.xlen)
    (hw : w.setWidth 16 = (CInstr.slli r shamt).encode) :
    ExpandsTo w (.slli r shamt) s ↔ shamt.toNat < 32 := by
  have hr : CExtension.getRs1 w = r.toNat := getRs1_fieldsCI hw
  have hi : (CExtension.getImmADDI w).signExtend T.xlen = shamt.signExtend T.xlen := by
    rw [getImmADDI_fieldsCI hw, signExtend_signExtend_of_le shamt (by decide)]
  refine expandsTo_shift hd hw rfl rfl rfl rfl (fun h => ?_) fun h => ?_
  · have hs : (shl (s.regs.getValue r.toNat) shamt.toNat).run s = .ok _ s :=
      run_shl s _ (h.trans_le T.le_xlen)
    rw [CExtension.execSLLI, run_bind_ok (run_getValue s _), hi,
      toNat_signExtend_of_lt T.le_xlen h, hr, run_bind_ok hs]
    rfl
  · rw [CExtension.execSLLI, run_bind_ok (run_getValue s _), hi]
    exact run_bind_error (run_shl_error _ (not_lt_toNat_signExtend h T.le_xlen) s)

end ShiftInstructions

/-! ## Jumps -/

section Jumps

variable {n : ℕ} {a : Isa.State n} {p q l v : BitVec n}

/-- Two jumps without a link register. -/
theorem shortens_jump (hl : linkReg c = none) (hf : fallsThrough a c = false) :
    Shortens c a (a.setPC p) ((a.set 0 v).setPC q) ↔ p = q := by
  rw [State.set_zero]
  refine ⟨fun h => h.target hf, fun h => ?_⟩
  subst h
  exact {
    x := fun _ _ => rfl
    link := fun r hr => by
      rw [hl] at hr
      cases hr
    next := fun ht => absurd (hf.symm.trans ht) (by decide)
    target := fun _ => rfl
    mem := rfl }

/-- Two jumps that link `x1`. -/
theorem shortens_link (hl : linkReg c = some 1) (hf : fallsThrough a c = false) :
    Shortens c a ((a.set 1 l).setPC p) ((a.set 1 (a.pc + 4)).setPC q) ↔
      p = q ∧ l = a.pc + 2 := by
  have h1 (y : BitVec n) : ((a.set 1 y).setPC p).x 1 = y := by
    rw [State.setPC, State.set_x, if_pos ⟨rfl, by decide⟩]
  constructor
  · intro h
    exact ⟨h.target hf, (h1 l).symm.trans (h.link 1 hl).1⟩
  · rintro ⟨rfl, rfl⟩
    refine ⟨fun r hr => ?_, fun r hr => ?_, fun ht => absurd (hf.symm.trans ht) (by decide),
      fun _ => rfl, ?_⟩
    · have hne : ¬(r = 1 ∧ (1 : Reg) ≠ 0) := fun he => hr (he.1 ▸ hl)
      change (a.set 1 (a.pc + 2)).x r = (a.set 1 (a.pc + 4)).x r
      rw [State.set_x, State.set_x, if_neg hne, if_neg hne]
    · rw [hl] at hr
      cases hr
      exact ⟨h1 _, h1 _⟩
    · exact (State.set_mem _ _ _).trans (State.set_mem _ _ _).symm

end Jumps

section Targets

variable (x : BitVec T.xlen)

/-- The target of a jump, computed on words. -/
theorem narrow_jump (offset : BitVec 11) :
    (x.setWidth 32 + (place 12 1 offset).signExtend 32).setWidth T.xlen =
      ((x + jumpOffset T.xlen (offset.signExtend 20)).setWidth 32).setWidth T.xlen := by
  rw [BitVec.setWidth_add _ _ T.le_xlen, signExtend_jump, setWidth_signExtend_of_le _ T.le_xlen]

theorem narrow_link : (x.setWidth 32 + 2).setWidth T.xlen =
    ((x + 2).setWidth 32).setWidth T.xlen := by
  have h2 : (2 : BitVec T.xlen).setWidth 32 = 2 := by cases T <;> rfl
  rw [BitVec.setWidth_add _ _ T.le_xlen, h2]

/-- The mask of an indirect jump cuts the target to a word. -/
theorem narrow_indirect :
    x &&& 0xFFFFFFFE#T.xlen = ((x &&& ~~~1#T.xlen).setWidth 32).setWidth T.xlen := by
  have hm : 0xFFFFFFFE#T.xlen = ((~~~1#T.xlen).setWidth 32).setWidth T.xlen := by
    cases T <;> decide
  rw [hm]
  apply BitVec.eq_of_getLsbD_eq
  intro i hi
  simp only [BitVec.getLsbD_and, BitVec.getLsbD_setWidth]
  cases decide (i < 32) <;> simp [hi]

/-- Bit 0 does not matter for the size of a target. -/
theorem toNat_and_not_one_lt : (x &&& ~~~1#T.xlen).toNat < 2 ^ 32 ↔ x.toNat < 2 ^ 32 := by
  have hs : x &&& ~~~1#T.xlen = (x >>> 1) <<< 1 := by
    apply BitVec.eq_of_getLsbD_eq
    intro i hi
    simp only [BitVec.getLsbD_and, BitVec.getLsbD_not, BitVec.getLsbD_one, BitVec.getLsbD_shiftLeft,
      BitVec.getLsbD_ushiftRight]
    by_cases h0 : i = 0
    · simp [h0, xlen_pos T]
    · simp [hi, h0, show 1 + (i - 1) = i by omega, show ¬i < 1 by omega]
  have hx := x.isLt
  rw [hs, BitVec.toNat_shiftLeft, BitVec.toNat_ushiftRight, Nat.shiftRight_eq_div_pow,
    Nat.shiftLeft_eq]
  rw [Nat.mod_eq_of_lt (by omega)]
  omega

end Targets

theorem signExtend_zero_imm (T : CpuType) : (0 : BitVec 12).signExtend T.xlen = 0 := by
  cases T <;> decide

section JumpInstructions

variable {offset : BitVec 11} {r : Reg}

theorem expandsTo_j_iff (hd : (CInstr.j offset).Defined T.xlen)
    (hw : w.setWidth 16 = (CInstr.j offset).encode) : ExpandsTo w (.j offset) s ↔
      (s.regs.registerPC + jumpOffset T.xlen (offset.signExtend 20)).toNat < 2 ^ 32 := by
  have ho := coperands_encode hd hw
  have hx : (CExtension.execJAL w 0).run s = .ok true (s.setPC
      (((s.regs.registerPC + jumpOffset T.xlen (offset.signExtend 20)).setWidth 32).setWidth
        T.xlen)) := by
    have hrun : (CExtension.execJAL w 0).run s = .ok true ((s.setPC
      ((s.regs.registerPC.setWidth 32 + CExtension.getImmJ w).setWidth T.xlen)).setReg 0
        ((s.regs.registerPC.setWidth 32 + 2).setWidth T.xlen)) := rfl
    rw [hrun, setReg_zero, ho, narrow_jump]
  have hs := expandsTo_iff_shortens hd hw (run_set_c rfl hx) rfl rfl (conforms_jal s 0 _)
  exact hs.trans ((shortens_jump rfl rfl).trans (setWidth_setWidth_eq_iff _))

theorem expandsTo_jal_iff (hd : (CInstr.jal offset).Defined T.xlen)
    (hw : w.setWidth 16 = (CInstr.jal offset).encode) : ExpandsTo w (.jal offset) s ↔
      (s.regs.registerPC + jumpOffset T.xlen (offset.signExtend 20)).toNat < 2 ^ 32 ∧
        (s.regs.registerPC + 2).toNat < 2 ^ 32 := by
  have ho := coperands_encode hd hw
  have hx : (CExtension.execJAL w 1).run s = .ok true ((s.setPC
      (((s.regs.registerPC + jumpOffset T.xlen (offset.signExtend 20)).setWidth 32).setWidth
        T.xlen)).setReg (1 : Reg).toNat
          (((s.regs.registerPC + 2).setWidth 32).setWidth T.xlen)) := by
    have hrun : (CExtension.execJAL w 1).run s = .ok true ((s.setPC
      ((s.regs.registerPC.setWidth 32 + CExtension.getImmJ w).setWidth T.xlen)).setReg 1
        ((s.regs.registerPC.setWidth 32 + 2).setWidth T.xlen)) := rfl
    rw [hrun, ho, narrow_jump, narrow_link]
    rfl
  have hs := expandsTo_iff_shortens hd hw (run_set_c rfl hx) (Registers.setValue_csr _ _ _) rfl
    (conforms_jal s 1 _)
  rw [archState_setReg, archState_setPC, State.set_setPC] at hs
  exact hs.trans ((shortens_link rfl rfl).trans
    (and_congr (setWidth_setWidth_eq_iff _) (setWidth_setWidth_eq_iff _)))

theorem expandsTo_jr_iff (hd : (CInstr.jr r).Defined T.xlen)
    (hw : w.setWidth 16 = (CInstr.jr r).encode) :
    ExpandsTo w (.jr r) s ↔ (registers s r).toNat < 2 ^ 32 := by
  have ho : CExtension.getRs1 w = r.toNat := coperands_encode hd hw
  have hx : (CExtension.execJR w).run s = .ok true (s.setPC
      ((((registers s r + (0 : BitVec 12).signExtend T.xlen) &&& ~~~1#T.xlen).setWidth 32).setWidth
        T.xlen)) := by
    rw [← narrow_indirect, registers, ← ho]
    cases T <;> rfl
  have hs := expandsTo_iff_shortens hd hw (run_set_c rfl hx) rfl rfl (conforms_jalr s 0 r 0)
  refine hs.trans ((shortens_jump rfl rfl).trans ((setWidth_setWidth_eq_iff _).trans ?_))
  rw [toNat_and_not_one_lt, signExtend_zero_imm, add_zero]

theorem expandsTo_jalr_iff (hd : (CInstr.jalr r).Defined T.xlen)
    (hw : w.setWidth 16 = (CInstr.jalr r).encode) :
    ExpandsTo w (.jalr r) s ↔
      (registers s r).toNat < 2 ^ 32 ∧ (s.regs.registerPC + 2).toNat < 2 ^ 32 := by
  have ho : CExtension.getRs1 w = r.toNat := coperands_encode hd hw
  have hx : (CExtension.execJALR w).run s = .ok true ((s.setReg (1 : Reg).toNat
      (((s.regs.registerPC + 2).setWidth 32).setWidth T.xlen)).setPC
      ((((registers s r + (0 : BitVec 12).signExtend T.xlen) &&& ~~~1#T.xlen).setWidth 32).setWidth
        T.xlen)) := by
    have hrun : (CExtension.execJALR w).run s = .ok true
        ((s.setReg 1 ((s.regs.registerPC.setWidth 32 + 2).setWidth T.xlen)).setPC
          ((((s.regs.getValue (CExtension.getRs1 w) + (0 : BitVec 32).setWidth T.xlen) &&&
            0xFFFFFFFE#T.xlen).setWidth 32).setWidth T.xlen)) := rfl
    have h0 : (0 : BitVec 32).setWidth T.xlen = 0 := by cases T <;> decide
    rw [hrun, narrow_indirect, narrow_link, CpuType.setWidth_setWidth, ho, h0, signExtend_zero_imm]
    rfl
  have hs := expandsTo_iff_shortens hd hw (run_set_c rfl hx) (Registers.setValue_csr _ _ _) rfl
    (conforms_jalr s 1 r 0)
  rw [archState_setPC, archState_setReg] at hs
  refine hs.trans ((shortens_link rfl rfl).trans
    (and_congr ((setWidth_setWidth_eq_iff _).trans ?_) (setWidth_setWidth_eq_iff _)))
  rw [toNat_and_not_one_lt, signExtend_zero_imm, add_zero]

end JumpInstructions

/-! ## Branches and `C.EBREAK` -/

section Branches

variable {rs1 : RegC} {offset : BitVec 8}

theorem run_execBranch_c (cond : BitVec T.xlen → Bool) (s : System T) :
    (CExtension.execBranch w cond).run s = .ok true
      (if cond (s.regs.getValue (CExtension.getRs1p w)) then
        s.setPC (s.regs.registerPC + (CExtension.getImmCB w).signExtend T.xlen)
      else { s with regs := s.regs.incPCby2 }) := by
  rw [CExtension.execBranch, run_bind_ok (run_getValue s _)]
  split <;> rfl

theorem shortens_branch {n : ℕ} {a : Isa.State n} {taken : Bool} {p : BitVec n}
    (hl : linkReg c = none) (hf : fallsThrough a c = !taken) :
    Shortens c a (if taken then a.setPC p else a.setPC (a.pc + 2))
      (if taken then a.setPC p else a.next) := by
  have hnone (r : Reg) (hr : linkReg c = some r) : False := by
    rw [hl] at hr
    cases hr
  cases taken with
  | true =>
    exact ⟨fun _ _ => rfl, fun r hr => (hnone r hr).elim,
      fun h => absurd (hf.symm.trans h) (by decide), fun _ => rfl, rfl⟩
  | false =>
    exact ⟨fun _ _ => rfl, fun r hr => (hnone r hr).elim, fun _ => ⟨rfl, rfl⟩,
      fun h => absurd (hf.symm.trans h) (by decide), rfl⟩

/-- A compressed branch: its condition is the one of the branch it expands to. -/
theorem expandsTo_of_branch {op : BranchOp} {x : Sim T Bool} (hd : c.Defined T.xlen)
    (hw : w.setWidth 16 = c.encode)
    (hc : CExtension.execInstruction w (compressedCode c) = pcSet x)
    (he : c.expand = .branch op rs1.reg 0 (offset.signExtend 12)) (hl : linkReg c = none)
    (hf : fallsThrough (archState s) c = !op.taken (registers s rs1.reg) (registers s 0))
    (hx : x.run s = .ok true (if op.taken (registers s rs1.reg) (registers s 0) then
        s.setPC (s.regs.registerPC + branchOffset T.xlen (offset.signExtend 12))
      else { s with regs := s.regs.incPCby2 })) : ExpandsTo w c s := by
  have hconf : Conforms s c.expand := by
    rw [he]
    exact conforms_branch s _ _ op _
  have hcsr : (if op.taken (registers s rs1.reg) (registers s 0) then
        s.setPC (s.regs.registerPC + branchOffset T.xlen (offset.signExtend 12))
      else { s with regs := s.regs.incPCby2 }).regs.csr = s.regs.csr := by
    split <;> rfl
  have hs := expandsTo_iff_shortens hd hw (run_set_c hc hx) hcsr (by rw [he]; rfl) hconf
  refine hs.mpr ?_
  rw [apply_ite archState]
  exact shortens_branch hl hf

theorem expandsTo_beqz (hd : (CInstr.beqz rs1 offset).Defined T.xlen)
    (hw : w.setWidth 16 = (CInstr.beqz rs1 offset).encode) : ExpandsTo w (.beqz rs1 offset) s := by
  have ho := coperands_encode hd hw
  have h0 : registers s 0 = 0 := Registers.getValue_zero s.regs
  refine expandsTo_of_branch hd hw rfl rfl rfl ?_ ?_
  · rw [h0]
    exact decide_not
  · rw [CExtension.execBEQZ, run_execBranch_c, ho.1, ho.2, signExtend_branch, h0]
    rfl

theorem expandsTo_bnez (hd : (CInstr.bnez rs1 offset).Defined T.xlen)
    (hw : w.setWidth 16 = (CInstr.bnez rs1 offset).encode) : ExpandsTo w (.bnez rs1 offset) s := by
  have ho := coperands_encode hd hw
  have h0 : registers s 0 = 0 := Registers.getValue_zero s.regs
  refine expandsTo_of_branch hd hw rfl rfl rfl ?_ ?_
  · have hn : (!BranchOp.taken (registers s rs1.reg) 0 .bne) = decide (registers s rs1.reg = 0) :=
      (congrArg (! ·) decide_not).trans (Bool.not_not _)
    rw [h0, hn]
    rfl
  · rw [CExtension.execBNEZ, run_execBranch_c, ho.1, ho.2, signExtend_branch, h0]
    have hn : BranchOp.taken (registers s rs1.reg) 0 .bne = (registers s rs1.reg != 0) := decide_not
    rw [hn]
    rfl

/-- The two breakpoints raise the same exception, which does not look at the word. -/
theorem expandsTo_ebreak (hd : CInstr.ebreak.Defined T.xlen)
    (hw : w.setWidth 16 = CInstr.ebreak.encode) : ExpandsTo w .ebreak s := by
  obtain ⟨t, ht, -⟩ := raiseException_run .BREAK w s
  have hb : (BaseIsa.execInstruction (encode .ebreak) .OP_EBREAK).run s = .ok (false, false) t :=
    run_pcForward (run_bind_ok ht)
  have hc : (CExtension.execInstruction w .OP_C_EBREAK).run s = .ok (false, true) t :=
    run_bind_ok (run_bind_ok ht)
  have hx : (execDecoded w (.c .OP_C_EBREAK)).run s = .ok true t := run_execDecoded_c hc
  have hy : (execDecoded (encode .ebreak) (.base .OP_EBREAK)).run s = .ok false t :=
    run_execDecoded_base hb
  have hdec : decodeCascade T (encode CInstr.ebreak.expand) = .base .OP_EBREAK :=
    decodeCascade_encode _
  rw [ExpandsTo, runExpansion, decodeCascade_compressed hd hw, hdec]
  change Agree _ _ (EStateM.run (execDecoded w (.c .OP_C_EBREAK)) s)
    (EStateM.run (execDecoded (encode .ebreak) (.base .OP_EBREAK)) s)
  rw [hx, hy]
  have hshort : Shortens .ebreak (archState s) (archState t) (archState t) := {
    x := fun _ _ => rfl
    link := nofun
    next := nofun
    target := fun _ => rfl
    mem := rfl }
  exact And.intro hshort rfl

end Branches

end RiscvTlm
