import RiscvTlm.DecodeEncode
import RiscvTlm.Exceptions
import RiscvTlm.Atomics

/-!
# The upper halfword of a compressed instruction

The fetch delivers 32 bits, and every later stage keeps the whole word. The C decoder and the
functions it leads to read bits 15 to 0 only, except where they hand the word to `RaiseException`;
a halfword they reject reaches the M and A decoders, which read the upper halfword as fields of a
32-bit instruction.
-/

namespace RiscvTlm

open Prog
open BitField (range_of_setWidth_eq)

variable {T : CpuType} {s : System T} {h u : BitVec 16} {hi lo : ℕ}

/-- What the property speaks of: the registers, the PC, the CSRs and the data memory. -/
def observed (s : System T) : Registers T × (ℕ → BitVec 8) := (s.regs, s.mem)

/-- The step that has fetched the word, up to what is observed. -/
def outcome (s : System T) (w : BitVec 32) : Registers T × (ℕ → BitVec 8) :=
  observed (endState ((execDecoded w (decodeCascade T w)).run s))

/-- No upper halfword changes the outcome. -/
def UpperIgnored (T : CpuType) (h : BitVec 16) : Prop :=
  ∀ (s : System T) (u₁ u₂ : BitVec 16), outcome s (u₁ ++ h) = outcome s (u₂ ++ h)

/-- The halfwords that let the upper one through: a `C.ADDI4SPN` with a zero immediate, whose word
goes to `mtval`, and the reserved halfwords, which are executed as `MULW` or reach the A decoder. -/
def Leaks (h : BitVec 16) : Prop :=
  BitField.range h 1 0 = 0 ∧ BitField.range h 15 13 = 0 ∧
    CExtension.getImmADDI4SPN (h.setWidth 32) = 0 ∨
  BitField.range h 1 0 = 0 ∧ BitField.range h 15 13 = 4 ∧
    (BitField.range h 12 12 = 0 → BitField.range h 11 7 ≠ 0) ∨
  BitField.range h 1 0 = 2 ∧ BitField.range h 15 13 = 5

/-! ## Bits 15 to 0 -/

@[simp] theorem range_halfword (u h : BitVec 16) (hhi : hi < 16) (hlo : lo ≤ hi) :
    BitField.range (u ++ h) hi lo = BitField.range h hi lo :=
  range_of_setWidth_eq BitVec.setWidth_append_eq_right hhi hlo

namespace CExtension

variable (u₁ u₂ h : BitVec 16)

/-- The decoder reads bits 15 to 0. -/
theorem decode_halfword : decode (u₁ ++ h) T = decode (u₂ ++ h) T := by
  simp (disch := decide) only [decode, opcode, getFunct3, range_halfword]

/-- A breakpoint does not report its word. -/
theorem raiseException_break (m m' : BitVec 32) :
    raiseException (T := T) .BREAK m = raiseException .BREAK m' := rfl

/-- Widening a 32-bit value keeps it from zero. -/
theorem setWidth_eq_zero_iff (x : BitVec 32) : x.setWidth T.xlen = 0 ↔ x = 0 := by
  constructor
  · intro h
    rw [← CpuType.setWidth_setWidth (T := T) x, h]
    exact BitVec.setWidth_zero _ _
  · rintro rfl
    exact BitVec.setWidth_zero _ _

/-- An immediate of zero is one of the halfword. -/
theorem getImmADDI4SPN_halfword : getImmADDI4SPN (u₁ ++ h) = getImmADDI4SPN (h.setWidth 32) := by
  have hr {hi lo : ℕ} (hhi : hi < 16) (hlo : lo ≤ hi) :
      BitField.range (h.setWidth 32) hi lo = BitField.range h hi lo :=
    range_of_setWidth_eq (BitVec.setWidth_setWidth_of_le h (by decide)) hhi hlo
  simp (disch := decide) only [getImmADDI4SPN, field, range_halfword, hr]

/-- The functions read bits 15 to 0, up to the word they raise an exception with. -/
theorem execInstruction_halfword {code : OpCCodes}
    (hc : code = .OP_C_ADDI4SPN → getImmADDI4SPN (h.setWidth 32) ≠ 0) :
    execInstruction (T := T) (u₁ ++ h) code = execInstruction (u₂ ++ h) code := by
  cases code
  case OP_C_ADDI4SPN =>
    have hne : (getImmADDI4SPN (h.setWidth 32)).setWidth T.xlen ≠ 0 := fun h0 =>
      hc rfl ((setWidth_eq_zero_iff _).mp h0)
    have hp (u : BitVec 16) : getRdp (u ++ h) = getRdp (0#16 ++ h) := by
      simp (disch := decide) only [getRdp, range_halfword]
    simp only [execInstruction, execADDI4SPN, getImmADDI4SPN_halfword, if_neg hne, hp u₁, hp u₂]
  case OP_C_EBREAK =>
    rw [execInstruction, execEBREAK, raiseException_break (u₁ ++ h) (u₂ ++ h)]
    rfl
  all_goals simp (disch := decide) only [execInstruction, execJR, execJAL, execJALR, execBranch,
    execBEQZ, execBNEZ, execLWSP, execLW, execLD, execLDSP, execSWSP, execSW, execSDSP, execSD,
    execFSW_SD, execLI, execADDI, execANDI, execADDIW, execADDI16SP, execShiftImm, execSRLI,
    execSRAI, execSLLI, execMV, execADD, execSUB, execXOR, execOR, execAND, execSUBW, execADDW,
    ExtensionBase.getRd, getRdp, getRs1, getRs1p, getRs2, getRs2p, field, extendSign, getImmJ,
    getImmL, getImmLWSP, getImmLDSP, getImmADDI, getImmADDI16SP, getImmCSS, getImmCSDSP, getImmCB,
    getImmCL, getImmLUI, range_halfword]

end CExtension

/-! ## The cascade on a compressed word -/

variable (u)

theorem opcode_halfword : CExtension.opcode (u ++ h) = (BitField.range h 1 0).toNat := by
  simp [CExtension.opcode]

theorem cReserved_halfword : CReserved (u ++ h) ↔
    BitField.range h 1 0 = 0 ∧ BitField.range h 15 13 = 4 ∨
      BitField.range h 1 0 = 2 ∧ BitField.range h 15 13 = 5 := by
  simp [CReserved, CExtension.opcode, CExtension.getFunct3, ← BitVec.toNat_inj]

/-- The C decoder gets the others. -/
theorem decodeCascade_unreserved {w : BitVec 32} (hq : CExtension.opcode w ≠ 3)
    (hr : ¬CReserved w) : decodeCascade T w = .c (CExtension.decode w T) :=
  decodeCascade_c rfl hq ((decode_c_ne_error_iff (T := T)).mpr ⟨hq, hr⟩)

/-- The M and A decoders get the reserved words. -/
theorem decodeCascade_reserved {w : BitVec 32} (hq : CExtension.opcode w ≠ 3) (hr : CReserved w) :
    decodeCascade T w =
      if MExtension.decode w ≠ .OP_M_ERROR then .m (MExtension.decode w)
      else if AExtension.decode w ≠ .OP_A_ERROR then .a (AExtension.decode w) else .none := by
  have hb : ¬BaseIsa.decode w ≠ .OP_ERROR := not_not.mpr (decode_eq_error hq)
  have hc : ¬CExtension.decode w T ≠ .OP_C_ERROR := fun he =>
    ((decode_c_ne_error_iff (T := T)).mp he).2 hr
  simp only [decodeCascade, if_neg hb, if_neg hc]

/-! ## The halfwords that keep the upper one out -/

namespace CExtension

theorem decode_addi4spn {w : BitVec 32} (hd : decode w T = .OP_C_ADDI4SPN) :
    opcode w = 0 ∧ getFunct3 w = 0 := by
  unfold decode at hd
  grind

end CExtension

theorem outcome_c {u₁ u₂ : BitVec 16} (hq : BitField.range h 1 0 ≠ 3) (hr : ¬CReserved (u₁ ++ h))
    (hl : ¬Leaks h) : outcome s (u₁ ++ h) = outcome s (u₂ ++ h) := by
  have hop (u : BitVec 16) : CExtension.opcode (u ++ h) ≠ 3 := by
    rw [opcode_halfword]
    exact fun he => hq (BitVec.eq_of_toNat_eq he)
  have hres (u' : BitVec 16) : ¬CReserved (u' ++ h) := by
    rwa [cReserved_halfword] at hr ⊢
  have hexec : execDecoded (T := T) (u₁ ++ h) (.c (CExtension.decode (u₂ ++ h) T)) =
      execDecoded (u₂ ++ h) (.c (CExtension.decode (u₂ ++ h) T)) := by
    have hi : CExtension.decode (u₂ ++ h) T = .OP_C_ADDI4SPN →
        CExtension.getImmADDI4SPN (h.setWidth 32) ≠ 0 := by
      intro hd h0
      obtain ⟨ho, h3⟩ := CExtension.decode_addi4spn hd
      refine hl (.inl ⟨?_, ?_, h0⟩)
      · exact BitVec.eq_of_toNat_eq ((opcode_halfword u₂).symm.trans ho)
      · refine BitVec.eq_of_toNat_eq (Eq.trans ?_ h3)
        simp [CExtension.getFunct3]
    simp only [execDecoded, CExtension.execInstruction_halfword u₁ u₂ h hi]
  rw [outcome, outcome, decodeCascade_unreserved (hop u₁) (hres u₁),
    decodeCascade_unreserved (hop u₂) (hres u₂),
    CExtension.decode_halfword u₁ u₂, hexec]

/-! ## The reserved halfwords -/

theorem toNat_halfword : (u ++ h).toNat = u.toNat * 2 ^ 16 + h.toNat := by
  rw [BitVec.toNat_append, ← Nat.shiftLeft_add_eq_or_of_lt h.isLt, Nat.shiftLeft_eq]

namespace MExtension

/-- What `MULW` writes. -/
def product (w : BitVec 32) (s : System T) : BitVec T.xlen :=
  (lowWord (s.regs.getValue (ExtensionBase.getRs1 w)) *
    lowWord (s.regs.getValue (ExtensionBase.getRs2 w))).signExtend T.xlen

theorem run_mulw (w : BitVec 32) (s : System T) :
    (execInstruction w .OP_M_MULW).run s =
      .ok true (s.setReg (ExtensionBase.getRd w) (product w s)) := rfl

end MExtension

/-- `funct3` of the 32-bit formats lies across `funct3` and bit 12 of the compressed ones. -/
theorem getFunct3_halfword : ExtensionBase.getFunct3 (u ++ h) =
    (BitField.range h 15 13).toNat % 4 * 2 + (BitField.range h 12 12).toNat := by
  rw [ExtensionBase.getFunct3, BitField.toNat_range _ (by decide),
    BitField.toNat_range _ (by decide), BitField.toNat_range _ (by decide), toNat_halfword]
  omega

theorem range_six_ne (hq : BitField.range h 1 0 ≠ 3) : BitField.range h 6 0 ≠ 51#64 := by
  intro h6
  refine hq (BitVec.eq_of_toNat_eq ?_)
  have hn := congrArg BitVec.toNat h6
  rw [BitField.toNat_range _ (by decide)] at hn ⊢
  change h.toNat / 1 % 128 = 51 at hn
  change h.toNat / 1 % 4 = 3
  omega

section Reserved

variable {u}

/-- Quadrant 0 with `funct3` 100 and bit 12 clear is `MULW`, whatever the upper halfword. -/
theorem outcome_mulw (hq : BitField.range h 1 0 = 0) (h4 : BitField.range h 15 13 = 4)
    (hb : BitField.range h 12 12 = 0) :
    outcome s (u ++ h) =
      ((s.setReg (ExtensionBase.getRd (u ++ h)) (MExtension.product (u ++ h) s)).regs.incPC,
        s.mem) := by
  have hop : CExtension.opcode (u ++ h) ≠ 3 := by
    rw [opcode_halfword, hq]
    decide
  have hr : CReserved (u ++ h) := (cReserved_halfword u).mpr (.inl ⟨hq, h4⟩)
  have hm : MExtension.decode (u ++ h) = .OP_M_MULW := by
    have h3 : MExtension.opcode (u ++ h) = 0 := by
      refine (getFunct3_halfword u).trans ?_
      rw [h4, hb]
      rfl
    have h6 : BitField.range h 6 0 ≠ 51#64 := range_six_ne (by rw [hq]; decide)
    simp [MExtension.decode, h6, h3]
  rw [outcome, decodeCascade_reserved hop hr, hm, if_pos (by decide),
    run_execDecoded_m (MExtension.run_mulw _ _)]
  rfl

/-- The other reserved halfwords leave the choice to bits 31 to 27. -/
theorem decodeCascade_upper
    (hl : BitField.range h 1 0 = 0 ∧ BitField.range h 15 13 = 4 ∧ BitField.range h 12 12 ≠ 0 ∨
      BitField.range h 1 0 = 2 ∧ BitField.range h 15 13 = 5) :
    decodeCascade T (u ++ h) = if AExtension.decode (u ++ h) ≠ .OP_A_ERROR then
      .a (AExtension.decode (u ++ h)) else .none := by
  have hq3 : BitField.range h 1 0 ≠ 3 := by
    rcases hl with ⟨hq, -⟩ | ⟨hq, -⟩ <;> rw [hq] <;> decide
  have hop : CExtension.opcode (u ++ h) ≠ 3 := by
    rw [opcode_halfword]
    exact fun he => hq3 (BitVec.eq_of_toNat_eq he)
  have hr : CReserved (u ++ h) := (cReserved_halfword u).mpr (hl.imp (fun hx => ⟨hx.1, hx.2.1⟩) id)
  have hb : (BitField.range h 12 12).toNat < 2 := by
    rw [BitField.toNat_range _ (by decide)]
    omega
  have hf : ExtensionBase.getFunct3 (u ++ h) ∈ [1, 2, 3] := by
    rw [getFunct3_halfword]
    rcases hl with ⟨-, h4, hne⟩ | ⟨-, h5⟩
    · have hb1 : (BitField.range h 12 12).toNat ≠ 0 := fun h0 => hne (BitVec.eq_of_toNat_eq h0)
      rw [h4, show (BitField.range h 12 12).toNat = 1 by omega]
      decide
    · rw [h5]
      generalize (BitField.range h 12 12).toNat = b at hb
      rcases (by omega : b = 0 ∨ b = 1) with rfl | rfl <;> decide
  have hm : ¬MTable (u ++ h) := by
    have ho : BaseIsa.opcode (u ++ h) ≠ 0b0110011 := fun he =>
      range_six_ne hq3 (BitVec.eq_of_toNat_eq (by simpa [BaseIsa.opcode] using he))
    exact not_or.mpr ⟨ho, fun hx => hx hf⟩
  rw [← decode_m_ne_error_iff] at hm
  rw [decodeCascade_reserved hop hr, if_neg hm]

/-- The A decoder looks at the upper halfword only. -/
theorem decode_a_halfword : AExtension.opcode (u ++ h) = u.toNat / 2 ^ 11 := by
  have hu := u.isLt
  rw [AExtension.opcode, BitField.toNat_range _ (by decide), toNat_halfword]
  omega

/-- With bits 31 to 27 set nothing happens. -/
theorem outcome_none
    (hl : BitField.range h 1 0 = 0 ∧ BitField.range h 15 13 = 4 ∧ BitField.range h 12 12 ≠ 0 ∨
      BitField.range h 1 0 = 2 ∧ BitField.range h 15 13 = 5) :
    outcome s (0xF800#16 ++ h) = observed s := by
  have ha : AExtension.decode (0xF800#16 ++ h) = .OP_A_ERROR := by
    rw [AExtension.decode, decode_a_halfword]
    rfl
  rw [outcome, decodeCascade_upper hl, ha]
  rfl

/-- With the code of `SC` and no reservation the PC advances. -/
theorem outcome_sc
    (hl : BitField.range h 1 0 = 0 ∧ BitField.range h 15 13 = 4 ∧ BitField.range h 12 12 ≠ 0 ∨
      BitField.range h 1 0 = 2 ∧ BitField.range h 15 13 = 5) (hs : s.tlbAEntries = ∅) :
    (outcome s (0x1800#16 ++ h)).1.registerPC = s.regs.registerPC + 4 := by
  have ha : AExtension.decode (0x1800#16 ++ h) = .OP_A_SC := by
    rw [AExtension.decode, decode_a_halfword]
    rfl
  have hr : ¬AExtension.Reserved (0x1800#16 ++ h) s := by
    rw [AExtension.Reserved, hs]
    exact Finset.notMem_empty _
  have hx : (AExtension.execInstruction (0x1800#16 ++ h) .OP_A_SC).run s = .ok true _ :=
    run_bind_ok (AExtension.run_execSC_not_reserved hr)
  rw [outcome, decodeCascade_upper hl, ha, if_pos (by decide), run_execDecoded_a hx]
  exact congrArg (· + 4) (Registers.setValue_registerPC _ _ _)

end Reserved

/-! ## The upper halfword leaks exactly there -/

theorem raiseException_mtval (m : BitVec 32) (s : System T) :
    ∃ t, (raiseException .ILLEGAL_INSTRUCTION m).run s = .ok () t ∧ t.regs.csr Csr.MTVAL = m :=
  ⟨_, rfl, by simp [Registers.setCSR_csr_apply]⟩

/-- A zero immediate puts the whole word into `mtval`. -/
theorem outcome_addi4spn (hq : BitField.range h 1 0 = 0) (h0 : BitField.range h 15 13 = 0)
    (hi : CExtension.getImmADDI4SPN (h.setWidth 32) = 0) :
    (outcome s (u ++ h)).1.csr Csr.MTVAL = u ++ h := by
  have hop : CExtension.opcode (u ++ h) ≠ 3 := by
    rw [opcode_halfword, hq]
    decide
  have hr : ¬CReserved (u ++ h) := by
    rw [cReserved_halfword, hq, h0]
    decide
  have hd : CExtension.decode (u ++ h) T = .OP_C_ADDI4SPN := by
    simp [CExtension.decode, CExtension.opcode, CExtension.getFunct3, hq, h0]
  have hi' : (CExtension.getImmADDI4SPN (u ++ h)).setWidth T.xlen = 0 := by
    rw [CExtension.getImmADDI4SPN_halfword, hi]
    exact BitVec.setWidth_zero _ _
  obtain ⟨t, ht, hm⟩ := raiseException_mtval (u ++ h) s
  have hx : (CExtension.execADDI4SPN (u ++ h)).run s = .ok false t := by
    rw [CExtension.execADDI4SPN, if_pos hi']
    exact run_bind_ok ht
  have hrun : (CExtension.execInstruction (u ++ h) .OP_C_ADDI4SPN).run s = .ok (false, false) t :=
    run_pcForward hx
  rw [outcome, decodeCascade_unreserved hop hr, hd, run_execDecoded_c hrun]
  exact hm

/-- The register that `MULW` writes is one of the halfword. -/
theorem getRd_halfword : ExtensionBase.getRd (u ++ h) = (BitField.range h 11 7).toNat := by
  simp [ExtensionBase.getRd]

/-- A state with 1 in `x1` tells the upper halfwords apart that choose `x0` and `x1`. -/
theorem product_halfword (h4 : BitField.range h 15 13 = 4) {s : System T}
    (hs : s.regs.getValue 1 = 1) :
    MExtension.product (0#16 ++ h) s = 0 ∧ MExtension.product (0x10#16 ++ h) s = 1 := by
  have hn := congrArg BitVec.toNat h4
  rw [BitField.toNat_range _ (by decide)] at hn
  change h.toNat / 2 ^ 13 % 8 = 4 at hn
  have h0 : (0#16).toNat = 0 := rfl
  have h10 : (0x10#16).toNat = 0x10 := rfl
  have hlt := h.isLt
  have hrs2 : ExtensionBase.getRs2 (0#16 ++ h) = 0 := by
    rw [ExtensionBase.getRs2, BitField.toNat_range _ (by decide), toNat_halfword]
    omega
  have hrs1' : ExtensionBase.getRs1 (0x10#16 ++ h) = 1 := by
    rw [ExtensionBase.getRs1, BitField.toNat_range _ (by decide), toNat_halfword]
    omega
  have hrs2' : ExtensionBase.getRs2 (0x10#16 ++ h) = 1 := by
    rw [ExtensionBase.getRs2, BitField.toNat_range _ (by decide), toNat_halfword]
    omega
  constructor
  · rw [MExtension.product, hrs2, Registers.getValue_zero]
    have hz : MExtension.lowWord (0 : BitVec T.xlen) = 0#32 := by cases T <;> rfl
    rw [hz, BitVec.mul_zero]
    cases T <;> rfl
  · rw [MExtension.product, hrs1', hrs2', hs]
    cases T <;> rfl

/-- Two upper halfwords give `MULW` different results. -/
theorem mulw_leaks (h0 : BitField.range h 1 0 = 0) (h4 : BitField.range h 15 13 = 4)
    (hb : BitField.range h 12 12 = 0) (hrd : BitField.range h 11 7 ≠ 0) : ¬UpperIgnored T h := by
  intro hu
  let s := (start T []).setReg 1 1
  have hs : s.regs.getValue 1 = 1 := getValue_setReg _ _ (by decide) (by decide)
  obtain ⟨hp, hp'⟩ := product_halfword h4 hs
  have hne (u : BitVec 16) : ExtensionBase.getRd (u ++ h) ≠ 0 := by
    rw [getRd_halfword]
    exact fun hz => hrd (BitVec.eq_of_toNat_eq hz)
  have hval (u : BitVec 16) :
      (outcome s (u ++ h)).1.getValue (BitField.range h 11 7).toNat =
        MExtension.product (u ++ h) s := by
    rw [outcome_mulw h0 h4 hb, ← getRd_halfword u]
    exact getValue_setReg s _ (getRd_lt _) (hne u)
  have he := hval 0#16
  rw [hu s 0#16 0x10#16, hval 0x10#16, hp, hp'] at he
  cases T <;> exact absurd he (by decide)

/-- The upper halfword of a compressed word is ignored exactly when the lower one is none of
`Leaks`. -/
theorem upperIgnored_iff (T : CpuType) (hq : BitField.range h 1 0 ≠ 3) :
    UpperIgnored T h ↔ ¬Leaks h := by
  -- a reserved halfword whose fate bits 31 to 27 decide
  have hupper (hu : UpperIgnored T h)
      (hl : BitField.range h 1 0 = 0 ∧ BitField.range h 15 13 = 4 ∧ BitField.range h 12 12 ≠ 0 ∨
        BitField.range h 1 0 = 2 ∧ BitField.range h 15 13 = 5) : False := by
    have he := congrArg (fun x => x.1.registerPC) (hu (start T []) 0xF800#16 0x1800#16)
    have hsc := outcome_sc (s := start T []) hl rfl
    rw [outcome_none hl] at he
    exact add_four_ne _ (hsc.symm.trans he.symm)
  constructor
  · rintro hu (⟨h0, h3, hi⟩ | ⟨h0, h4, hrd⟩ | h25)
    · have he := congrArg (fun x => x.1.csr Csr.MTVAL) (hu (start T []) 0#16 1#16)
      simp only [outcome_addi4spn _ h0 h3 hi] at he
      have hn := congrArg BitVec.toNat he
      rw [toNat_halfword, toNat_halfword] at hn
      change 0 * 2 ^ 16 + h.toNat = 1 * 2 ^ 16 + h.toNat at hn
      omega
    · by_cases hb : BitField.range h 12 12 = 0
      · exact mulw_leaks h0 h4 hb (hrd hb) hu
      · exact hupper hu (.inl ⟨h0, h4, hb⟩)
    · exact hupper hu (.inr h25)
  · intro hl s u₁ u₂
    by_cases hr : CReserved (u₁ ++ h)
    · rcases (cReserved_halfword u₁).mp hr with ⟨h0, h4⟩ | h25
      · have hx : BitField.range h 12 12 = 0 ∧ BitField.range h 11 7 = 0 := by
          by_contra hne
          exact hl (.inr (.inl ⟨h0, h4, fun hb hrd => hne ⟨hb, hrd⟩⟩))
        -- `MULW` with `rd = x0`
        have hz : (0 : BitVec 64).toNat = 0 := rfl
        rw [outcome_mulw h0 h4 hx.1, outcome_mulw h0 h4 hx.1, getRd_halfword, getRd_halfword, hx.2,
          hz, setReg_zero, setReg_zero]
      · exact absurd (.inr (.inr h25)) hl
    · exact outcome_c hq hr hl

/-- `C.NOP`. -/
theorem upperIgnored_nop : UpperIgnored .RV64 0x0001 := by
  refine (upperIgnored_iff .RV64 (by decide)).mpr ?_
  rintro (⟨h0, -⟩ | ⟨h0, -⟩ | ⟨h0, -⟩) <;> exact absurd h0 (by decide)

/-- The halfword 0, with 0 and 1 above it. -/
theorem not_upperIgnored_zero : ¬UpperIgnored .RV32 0 := by
  intro hu
  have he := congrArg (fun x => x.1.csr Csr.MTVAL) (hu (start .RV32 []) 0 1)
  exact absurd he (by decide)

end RiscvTlm
