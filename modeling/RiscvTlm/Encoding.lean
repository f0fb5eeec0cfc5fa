import RiscvTlm.Cpu
import RiscvTlm.Isa.Compressed

/-!
# The accessors on encoded words

What each accessor of the base, M and A extensions reads from a word of each 32-bit format: the
register numbers, the function fields, and the immediates, which the accessors assemble from their
pieces and sign-extend by hand.
-/

namespace RiscvTlm

open Isa BitField BaseIsa ExtensionBase

variable {T : CpuType}

/-! ## Sign extension by hand -/

theorem signMask_12 (T : CpuType) : signMask T 0xFFFFF 12 = BitVec.allOnes T.xlen <<< 12 := by
  cases T <;> decide

theorem signMask_20 (T : CpuType) : signMask T 0xFFF 20 = BitVec.allOnes T.xlen <<< 20 := by
  cases T <;> decide

/-- The extension lines are an `|||` with ones from bit 12 up. -/
theorem extend12_eq (w : BitVec 32) (aux : BitVec T.xlen) :
    extend12 w T aux =
      if bit w 31 = 1#64 then aux ||| BitVec.allOnes T.xlen <<< 12 else aux := by
  cases T with
  | RV32 => exact congrArg (fun m => if bit w 31 = 1#64 then aux ||| m else aux) (signMask_12 _)
  | RV64 =>
    have h : signMask .RV64 0xFFFFF 12 ||| 0xFFFFFFFF#64 <<< 32 = BitVec.allOnes 64 <<< 12 := by
      decide
    simp only [extend12, BitVec.or_assoc, h]
    rfl

/-! ## Format R -/

section FormatR

variable (f7 : BitVec 7) (rs2 rs1 : Reg) (f3 : BitVec 3) (rd : Reg) (opc : BitVec 7)

@[simp] theorem opcode_encodeR : opcode (encodeR f7 rs2 rs1 f3 rd opc) = opc.toNat := by
  simp [opcode, encodeR]

@[simp] theorem getRd_encodeR : getRd (encodeR f7 rs2 rs1 f3 rd opc) = rd.toNat := by
  simp [getRd, encodeR]

@[simp] theorem getFunct3_encodeR : getFunct3 (encodeR f7 rs2 rs1 f3 rd opc) = f3.toNat := by
  simp [getFunct3, encodeR]

@[simp] theorem getRs1_encodeR : getRs1 (encodeR f7 rs2 rs1 f3 rd opc) = rs1.toNat := by
  simp [getRs1, encodeR]

@[simp] theorem getRs2_encodeR : getRs2 (encodeR f7 rs2 rs1 f3 rd opc) = rs2.toNat := by
  simp [getRs2, encodeR]

@[simp] theorem getFunct7_encodeR : getFunct7 (encodeR f7 rs2 rs1 f3 rd opc) = f7.toNat := by
  simp [getFunct7, encodeR]

@[simp] theorem range_31_26_encodeR :
    range (encodeR f7 rs2 rs1 f3 rd opc) 31 26 = place 64 0 (f7.extractLsb' 1 6) := by
  simp [encodeR]

@[simp] theorem range_6_0_encodeR : range (encodeR f7 rs2 rs1 f3 rd opc) 6 0 = place 64 0 opc := by
  simp [encodeR]

@[simp] theorem opcodeM_encodeR : MExtension.opcode (encodeR f7 rs2 rs1 f3 rd opc) = f3.toNat := by
  simp [MExtension.opcode, encodeR]

@[simp] theorem opcodeC_encodeR :
    CExtension.opcode (encodeR f7 rs2 rs1 f3 rd opc) = (opc.extractLsb' 0 2).toNat := by
  simp [CExtension.opcode, encodeR]

end FormatR

/-! ## Format I -/

section FormatI

variable (imm : BitVec 12) (rs1 : Reg) (f3 : BitVec 3) (rd : Reg) (opc : BitVec 7)

@[simp] theorem opcode_encodeI : opcode (encodeI imm rs1 f3 rd opc) = opc.toNat := by
  simp [opcode, encodeI]

@[simp] theorem getRd_encodeI : getRd (encodeI imm rs1 f3 rd opc) = rd.toNat := by
  simp [getRd, encodeI]

@[simp] theorem getFunct3_encodeI : getFunct3 (encodeI imm rs1 f3 rd opc) = f3.toNat := by
  simp [getFunct3, encodeI]

@[simp] theorem getRs1_encodeI : getRs1 (encodeI imm rs1 f3 rd opc) = rs1.toNat := by
  simp [getRs1, encodeI]

@[simp] theorem getCsr_encodeI : getCsr (encodeI imm rs1 f3 rd opc) = imm.toNat := by
  simp [getCsr, encodeI]

end FormatI

/-! ## Format I with a shift amount -/

section FormatShift

variable (f6 shamt : BitVec 6) (rs1 : Reg) (f3 : BitVec 3) (rd : Reg) (opc : BitVec 7)

@[simp] theorem opcode_encodeShift : opcode (encodeShift f6 shamt rs1 f3 rd opc) = opc.toNat := by
  simp [opcode, encodeShift]

@[simp] theorem getRd_encodeShift : getRd (encodeShift f6 shamt rs1 f3 rd opc) = rd.toNat := by
  simp [getRd, encodeShift]

@[simp] theorem getFunct3_encodeShift :
    getFunct3 (encodeShift f6 shamt rs1 f3 rd opc) = f3.toNat := by
  simp [getFunct3, encodeShift]

@[simp] theorem getRs1_encodeShift : getRs1 (encodeShift f6 shamt rs1 f3 rd opc) = rs1.toNat := by
  simp [getRs1, encodeShift]

@[simp] theorem getRs2_encodeShift :
    getRs2 (encodeShift f6 shamt rs1 f3 rd opc) = (shamt.extractLsb' 0 5).toNat := by
  simp [getRs2, encodeShift]

@[simp] theorem getShamt_encodeShift :
    getShamt (encodeShift f6 shamt rs1 f3 rd opc) = shamt.toNat := by
  simp [getShamt, encodeShift]

@[simp] theorem getShamtSlli_encodeShift :
    getShamtSlli (encodeShift f6 shamt rs1 f3 rd opc) = shamt.toNat := by
  simp [getShamtSlli, encodeShift]

@[simp] theorem range_31_26_encodeShift :
    range (encodeShift f6 shamt rs1 f3 rd opc) 31 26 = place 64 0 f6 := by
  simp [encodeShift]

end FormatShift

/-! ## Format S -/

section FormatS

variable (imm : BitVec 12) (rs2 rs1 : Reg) (f3 : BitVec 3) (opc : BitVec 7)

@[simp] theorem opcode_encodeS : opcode (encodeS imm rs2 rs1 f3 opc) = opc.toNat := by
  simp [opcode, encodeS]

@[simp] theorem getFunct3_encodeS : getFunct3 (encodeS imm rs2 rs1 f3 opc) = f3.toNat := by
  simp [getFunct3, encodeS]

@[simp] theorem getRs1_encodeS : getRs1 (encodeS imm rs2 rs1 f3 opc) = rs1.toNat := by
  simp [getRs1, encodeS]

@[simp] theorem getRs2_encodeS : getRs2 (encodeS imm rs2 rs1 f3 opc) = rs2.toNat := by
  simp [getRs2, encodeS]

end FormatS

/-! ## Format B -/

section FormatB

variable (offset : BitVec 12) (rs2 rs1 : Reg) (f3 : BitVec 3) (opc : BitVec 7)

@[simp] theorem opcode_encodeB : opcode (encodeB offset rs2 rs1 f3 opc) = opc.toNat := by
  simp [opcode, encodeB]

@[simp] theorem getFunct3_encodeB : getFunct3 (encodeB offset rs2 rs1 f3 opc) = f3.toNat := by
  simp [getFunct3, encodeB]

@[simp] theorem getRs1_encodeB : getRs1 (encodeB offset rs2 rs1 f3 opc) = rs1.toNat := by
  simp [getRs1, encodeB]

@[simp] theorem getRs2_encodeB : getRs2 (encodeB offset rs2 rs1 f3 opc) = rs2.toNat := by
  simp [getRs2, encodeB]

end FormatB

/-! ## Format U -/

section FormatU

variable (imm : BitVec 20) (rd : Reg) (opc : BitVec 7)

@[simp] theorem opcode_encodeU : opcode (encodeU imm rd opc) = opc.toNat := by
  simp [opcode, encodeU]

@[simp] theorem getRd_encodeU : getRd (encodeU imm rd opc) = rd.toNat := by
  simp [getRd, encodeU]

@[simp] theorem range_31_12_encodeU : range (encodeU imm rd opc) 31 12 = place 64 0 imm := by
  simp [encodeU]

end FormatU

/-! ## Format J -/

section FormatJ

variable (offset : BitVec 20) (rd : Reg) (opc : BitVec 7)

@[simp] theorem opcode_encodeJ : opcode (encodeJ offset rd opc) = opc.toNat := by
  simp [opcode, encodeJ]

@[simp] theorem getRd_encodeJ : getRd (encodeJ offset rd opc) = rd.toNat := by
  simp [getRd, encodeJ]

end FormatJ

/-! ## Format of the atomics -/

section FormatAmo

variable (f5 : BitVec 5) (aqrl : BitVec 2) (rs2 rs1 rd : Reg)

@[simp] theorem opcode_encodeAmo : opcode (encodeAmo f5 aqrl rs2 rs1 rd) = 0b0101111 := by
  simp [opcode, encodeAmo]

@[simp] theorem getRd_encodeAmo : getRd (encodeAmo f5 aqrl rs2 rs1 rd) = rd.toNat := by
  simp [getRd, encodeAmo]

@[simp] theorem getRs1_encodeAmo : getRs1 (encodeAmo f5 aqrl rs2 rs1 rd) = rs1.toNat := by
  simp [getRs1, encodeAmo]

@[simp] theorem getRs2_encodeAmo : getRs2 (encodeAmo f5 aqrl rs2 rs1 rd) = rs2.toNat := by
  simp [getRs2, encodeAmo]

@[simp] theorem range_6_0_encodeAmo : range (encodeAmo f5 aqrl rs2 rs1 rd) 6 0 = 0b0101111 := by
  simp [encodeAmo]
  decide

@[simp] theorem opcodeM_encodeAmo : MExtension.opcode (encodeAmo f5 aqrl rs2 rs1 rd) = 0b010 := by
  simp [MExtension.opcode, encodeAmo]

@[simp] theorem opcodeC_encodeAmo : CExtension.opcode (encodeAmo f5 aqrl rs2 rs1 rd) = 0b11 := by
  simp [CExtension.opcode, encodeAmo]

@[simp] theorem opcodeA_encodeAmo :
    AExtension.opcode (encodeAmo f5 aqrl rs2 rs1 rd) = f5.toNat := by
  simp [AExtension.opcode, encodeAmo]

end FormatAmo

/-! ## Immediates -/

section Immediates

variable (rs2 rs1 : Reg) (f3 : BitVec 3) (rd : Reg) (opc : BitVec 7)

/-- The extension lines complete a 12-bit field at bit 0. -/
theorem extend12_place (w : BitVec 32) (imm : BitVec 12)
    (h : bit w 31 = place 64 0 (imm.extractLsb' 11 1)) :
    extend12 w T (place T.xlen 0 imm) = imm.signExtend T.xlen := by
  have hs := signExtend_place (n := T.xlen) 0 imm
  rw [extend12_eq, h]
  simp only [place_bit_eq_one]
  rw [show imm.signExtend T.xlen = (place (0 + 11 + 1) 0 imm).signExtend T.xlen by
    simp [place], hs]

/-- The extension lines complete a 12-bit field at bit 1. -/
theorem extend12_place_one (w : BitVec 32) (offset : BitVec 12)
    (h : bit w 31 = place 64 0 (offset.extractLsb' 11 1)) :
    extend12 w T (place T.xlen 1 offset) = branchOffset T.xlen offset := by
  have hs := signExtend_place_top (n := T.xlen) 1 offset
  rw [extend12_eq, h]
  simp only [place_bit_eq_one]
  exact hs.symm

theorem getImmI_encodeI (imm : BitVec 12) :
    getImmI (encodeI imm rs1 f3 rd opc) T = imm.signExtend T.xlen := by
  have hx := T.xlen_le
  have hb : bit (encodeI imm rs1 f3 rd opc) 31 = place 64 0 (imm.extractLsb' 11 1) := by
    simp [encodeI]
  rw [← extend12_place _ imm hb]
  simp [getImmI, encodeI, hx]

theorem getImmS_encodeS (imm : BitVec 12) :
    getImmS (encodeS imm rs2 rs1 f3 opc) T = imm.signExtend T.xlen := by
  have hx := T.xlen_le
  have hb : bit (encodeS imm rs2 rs1 f3 opc) 31 = place 64 0 (imm.extractLsb' 11 1) := by
    simp [encodeS]
  rw [← extend12_place _ imm hb]
  simp [getImmS, encodeS, hx, place_or_place]

theorem getImmB_encodeB (offset : BitVec 12) :
    getImmB (encodeB offset rs2 rs1 f3 opc) T = branchOffset T.xlen offset := by
  have hx := T.xlen_le
  have hb : bit (encodeB offset rs2 rs1 f3 opc) 31 = place 64 0 (offset.extractLsb' 11 1) := by
    simp [encodeB]
  rw [← extend12_place_one _ offset hb]
  have hm : place T.xlen 11 (offset.extractLsb' 10 1) ||| place T.xlen 5 (offset.extractLsb' 4 6)
      ||| place T.xlen 12 (offset.extractLsb' 11 1) ||| place T.xlen 1 (offset.extractLsb' 0 4) =
      place T.xlen 1 offset := by
    calc _ = place T.xlen 12 (offset.extractLsb' 11 1) |||
          place T.xlen 11 (offset.extractLsb' 10 1) ||| place T.xlen 5 (offset.extractLsb' 4 6) |||
          place T.xlen 1 (offset.extractLsb' 0 4) := by
          rw [BitVec.or_comm _ (place T.xlen 12 _), ← BitVec.or_assoc]
      _ = place T.xlen 1 offset := by simp [place_or_place]
  simp [getImmB, encodeB, hx, hm]

theorem getImmJ_encodeJ (offset : BitVec 20) :
    getImmJ (encodeJ offset rd opc) T = jumpOffset T.xlen offset := by
  have hx := T.xlen_le
  have hb : bit (encodeJ offset rd opc) 31 = place 64 0 (offset.extractLsb' 19 1) := by
    simp [encodeJ]
  have hm : place T.xlen 20 (offset.extractLsb' 19 1) ||| place T.xlen 12 (offset.extractLsb' 11 8)
      ||| place T.xlen 11 (offset.extractLsb' 10 1) ||| place T.xlen 1 (offset.extractLsb' 0 10) =
      place T.xlen 1 offset := by
    simp [place_or_place]
  have hs := signExtend_place_top (n := T.xlen) 1 offset
  have hv : getImmJ (encodeJ offset rd opc) T =
      if bit (encodeJ offset rd opc) 31 = 1#64 then
        place T.xlen 1 offset ||| BitVec.allOnes T.xlen <<< 20 else place T.xlen 1 offset := by
    rw [← hm, ← signMask_20]
    simp [getImmJ, encodeJ, hx]
  rw [hv, hb]
  simp only [place_bit_eq_one]
  exact hs.symm

theorem upperImm_encodeU (imm : BitVec 20) :
    BaseIsa.upperImm (encodeU imm rd opc) T = Isa.upperImm T.xlen imm := by
  have hx := T.xlen_le
  simp [BaseIsa.upperImm, Isa.upperImm, getImmU, hx, T.le_xlen]

end Immediates

end RiscvTlm
