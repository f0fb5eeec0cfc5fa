import RiscvTlm.CompressedEncoding

/-!
# Decode undoes encode

`Operands T w i` says what the accessors give for a word that encodes `i`: its registers and its
immediate. `COperands` is the same for a word whose low halfword encodes a compressed instruction.
Every encoded word is decoded to the operation code of its instruction and has its operands.
-/

namespace RiscvTlm

open Isa BitField

variable {T : CpuType} {w : BitVec 32}

/-! ## The compressed decoder -/

/-- The base decoder takes no word with a compressed quadrant. -/
theorem decode_eq_error (h : CExtension.opcode w ≠ 3) : BaseIsa.decode w = .OP_ERROR := by
  have hq : CExtension.opcode w = BaseIsa.opcode w % 4 := by
    rw [CExtension.opcode, BaseIsa.opcode, toNat_range _ (by decide), toNat_range _ (by decide)]
    omega
  rw [hq] at h
  unfold BaseIsa.decode
  split <;> first | rfl | simp_all

/-- A word the compressed decoder accepts goes to the C extension. -/
theorem decodeCascade_c {code : OpCCodes} (h : CExtension.decode w T = code)
    (hq : CExtension.opcode w ≠ 3) (hne : code ≠ .OP_C_ERROR) : decodeCascade T w = .c code := by
  simp [decodeCascade, decode_eq_error hq, h, hne]

/-- The operation code of a compressed instruction. -/
def compressedCode : CInstr → OpCCodes
  | .addi4spn .. => .OP_C_ADDI4SPN
  | .lw .. => .OP_C_LW
  | .ld .. => .OP_C_LD
  | .sw .. => .OP_C_SW
  | .sd .. => .OP_C_SD
  | .addi .. => .OP_C_ADDI
  | .jal .. => .OP_C_JAL
  | .addiw .. => .OP_C_ADDIW
  | .li .. => .OP_C_LI
  | .addi16sp .. => .OP_C_ADDI16SP
  | .lui .. => .OP_C_ADDI16SP
  | .srli .. => .OP_C_SRLI
  | .srai .. => .OP_C_SRAI
  | .andi .. => .OP_C_ANDI
  | .sub .. => .OP_C_SUB
  | .xor .. => .OP_C_XOR
  | .or .. => .OP_C_OR
  | .and .. => .OP_C_AND
  | .subw .. => .OP_C_SUBW
  | .addw .. => .OP_C_ADDW
  | .j .. => .OP_C_J
  | .beqz .. => .OP_C_BEQZ
  | .bnez .. => .OP_C_BNEZ
  | .slli .. => .OP_C_SLLI
  | .lwsp .. => .OP_C_LWSP
  | .ldsp .. => .OP_C_LDSP
  | .jr .. => .OP_C_JR
  | .mv .. => .OP_C_MV
  | .ebreak => .OP_C_EBREAK
  | .jalr .. => .OP_C_JALR
  | .add .. => .OP_C_ADD
  | .swsp .. => .OP_C_SWSP
  | .sdsp .. => .OP_C_SDSP

theorem compressedCode_ne_error (c : CInstr) : compressedCode c ≠ .OP_C_ERROR := by
  cases c <;> simp [compressedCode]

/-- No encoded halfword has the quadrant of the 32-bit words. -/
theorem opcode_compressed {c : CInstr} (h : w.setWidth 16 = c.encode) :
    CExtension.opcode w ≠ 3 := by
  cases c <;>
    simp [CExtension.opcode, range_of_setWidth_eq h, CInstr.encode, encodeC, fieldsCI, fieldsCR,
      fieldsCLW, fieldsCLD, fieldsCJ, fieldsCB, fieldsCBI, fieldsCA]

theorem xlen_eq_64 : T.xlen = 64 ↔ T = .RV64 := by cases T <;> simp

theorem xlen_eq_32 : T.xlen = 32 ↔ T = .RV32 := by cases T <;> simp

theorem decode_compressed {c : CInstr} (hd : c.Defined T.xlen) (h : w.setWidth 16 = c.encode) :
    CExtension.decode w T = compressedCode c := by
  cases c <;>
    simp [CInstr.Defined, xlen_eq_64, xlen_eq_32] at hd <;>
    simp [CExtension.decode, CExtension.opcode, CExtension.getFunct3, compressedCode,
      range_of_setWidth_eq h, CInstr.encode, encodeC, fieldsCI, fieldsCR, fieldsCLW, fieldsCLD,
      fieldsCJ, fieldsCB, fieldsCBI, fieldsCA, hd]

/-! ## Immediates of the stack-pointer formats -/

/-- The displacement of a compressed load or store, as its expansion and as the code extend it. -/
theorem signExtend_displacement {k p : ℕ} (u : BitVec k) (n : ℕ) (h : p + k < 12) :
    (place 12 p u).signExtend n = (place 32 p u).setWidth n := by
  rw [signExtend_place_of_lt u h, ← place_zero, place_place u (by omega), Nat.zero_add]

theorem getImmADDI4SPN_encode {rd : RegC} {uimm : BitVec 8}
    (h : w.setWidth 16 = (CInstr.addi4spn rd uimm).encode) :
    CExtension.getImmADDI4SPN w = place 32 2 uimm := by
  have hm : place 32 4 (uimm.extractLsb' 2 2) ||| place 32 6 (uimm.extractLsb' 4 4) |||
      place 32 2 (uimm.extractLsb' 0 1) ||| place 32 3 (uimm.extractLsb' 1 1) =
        place 32 2 uimm := by
    calc _ = place 32 6 (uimm.extractLsb' 4 4) ||| place 32 4 (uimm.extractLsb' 2 2) |||
        place 32 3 (uimm.extractLsb' 1 1) ||| place 32 2 (uimm.extractLsb' 0 1) := by ac_rfl
      _ = place 32 2 uimm := by simp [place_or_place]
  simp [CExtension.getImmADDI4SPN, CExtension.field, range_of_setWidth_eq h, CInstr.encode,
    encodeC, hm]

theorem getImmADDI16SP_encode {imm : BitVec 6}
    (h : w.setWidth 16 = (CInstr.addi16sp imm).encode) :
    CExtension.getImmADDI16SP w = (place 10 4 imm).signExtend 32 := by
  have hb : bit w 12 = place 64 0 (imm.extractLsb' 5 1) := by
    simp [range_of_setWidth_eq h, CInstr.encode, encodeC]
  have hm : place 32 9 (imm.extractLsb' 5 1) ||| place 32 4 (imm.extractLsb' 0 1) |||
      place 32 6 (imm.extractLsb' 2 1) ||| place 32 8 (imm.extractLsb' 4 1) |||
      place 32 7 (imm.extractLsb' 3 1) ||| place 32 5 (imm.extractLsb' 1 1) =
        place 32 4 imm := by
    calc _ = place 32 9 (imm.extractLsb' 5 1) ||| place 32 8 (imm.extractLsb' 4 1) |||
        place 32 7 (imm.extractLsb' 3 1) ||| place 32 6 (imm.extractLsb' 2 1) |||
        place 32 5 (imm.extractLsb' 1 1) ||| place 32 4 (imm.extractLsb' 0 1) := by ac_rfl
      _ = place 32 4 imm := by simp [place_or_place]
  refine extendSign_place ?_ hb (by decide) (by decide)
  simp [CExtension.field, range_of_setWidth_eq h, CInstr.encode, encodeC, hm]

theorem getImmLWSP_encode {rd : Reg} {uimm : BitVec 6}
    (h : w.setWidth 16 = (CInstr.lwsp rd uimm).encode) :
    CExtension.getImmLWSP w = place 32 2 uimm := by
  have hm : place 32 5 (uimm.extractLsb' 3 1) ||| place 32 2 (uimm.extractLsb' 0 3) |||
      place 32 6 (uimm.extractLsb' 4 2) = place 32 2 uimm := by
    rw [BitVec.or_comm, ← BitVec.or_assoc]
    simp [place_or_place]
  simp [CExtension.getImmLWSP, CExtension.field, range_of_setWidth_eq h, CInstr.encode, encodeC, hm]

theorem getImmLDSP_encode {rd : Reg} {uimm : BitVec 6}
    (h : w.setWidth 16 = (CInstr.ldsp rd uimm).encode) :
    CExtension.getImmLDSP w = place 32 3 uimm := by
  have hm : place 32 5 (uimm.extractLsb' 2 1) ||| place 32 3 (uimm.extractLsb' 0 2) |||
      place 32 6 (uimm.extractLsb' 3 3) = place 32 3 uimm := by
    rw [BitVec.or_comm, ← BitVec.or_assoc]
    simp [place_or_place]
  simp [CExtension.getImmLDSP, CExtension.field, range_of_setWidth_eq h, CInstr.encode, encodeC, hm]

theorem getImmCSS_encode {rs2 : Reg} {uimm : BitVec 6}
    (h : w.setWidth 16 = (CInstr.swsp rs2 uimm).encode) :
    CExtension.getImmCSS w = place 32 2 uimm := by
  have hm : place 32 2 (uimm.extractLsb' 0 4) ||| place 32 6 (uimm.extractLsb' 4 2) =
      place 32 2 uimm := by
    rw [BitVec.or_comm]
    simp [place_or_place]
  simp [CExtension.getImmCSS, CExtension.field, range_of_setWidth_eq h, CInstr.encode, encodeC, hm]

theorem getImmCSDSP_encode {rs2 : Reg} {uimm : BitVec 6}
    (h : w.setWidth 16 = (CInstr.sdsp rs2 uimm).encode) :
    CExtension.getImmCSDSP w = place 32 3 uimm := by
  have hm : place 32 3 (uimm.extractLsb' 0 3) ||| place 32 6 (uimm.extractLsb' 3 3) =
      place 32 3 uimm := by
    rw [BitVec.or_comm]
    simp [place_or_place]
  simp [CExtension.getImmCSDSP, CExtension.field, range_of_setWidth_eq h, CInstr.encode, encodeC,
    hm]

/-! ## What the accessors give -/

section Operands

open BaseIsa ExtensionBase

/-- The accessors the `exec` function of an instruction uses return its registers and its
immediate. -/
def Operands (T : CpuType) (w : BitVec 32) : Instr → Prop
  | .lui rd imm | .auipc rd imm => getRd w = rd.toNat ∧ getImmU w T = imm.setWidth T.xlen
  | .jal rd offset => getRd w = rd.toNat ∧ getImmJ w T = jumpOffset T.xlen offset
  | .jalr rd rs1 imm | .load _ rd rs1 imm | .opImm _ rd rs1 imm | .addiw rd rs1 imm =>
    getRd w = rd.toNat ∧ getRs1 w = rs1.toNat ∧ getImmI w T = imm.signExtend T.xlen
  | .branch _ rs1 rs2 offset =>
    getRs1 w = rs1.toNat ∧ getRs2 w = rs2.toNat ∧ getImmB w T = branchOffset T.xlen offset
  | .store _ rs1 rs2 imm =>
    getRs1 w = rs1.toNat ∧ getRs2 w = rs2.toNat ∧ getImmS w T = imm.signExtend T.xlen
  | .shiftImm _ rd rs1 shamt =>
    getRd w = rd.toNat ∧ getRs1 w = rs1.toNat ∧ getShamt w = shamt.toNat ∧
      getShamtSlli w = shamt.toNat ∧ (T = .RV32 → getRs2 w = shamt.toNat)
  | .shiftImmW _ rd rs1 shamt =>
    getRd w = rd.toNat ∧ getRs1 w = rs1.toNat ∧ getShamt w = shamt.toNat ∧
      getShamtSlli w = shamt.toNat
  | .op _ rd rs1 rs2 | .opW _ rd rs1 rs2 | .mul _ rd rs1 rs2 | .mulW _ rd rs1 rs2
  | .scW _ rd rs1 rs2 | .amoW _ _ rd rs1 rs2 =>
    getRd w = rd.toNat ∧ getRs1 w = rs1.toNat ∧ getRs2 w = rs2.toNat
  | .lrW _ rd rs1 => getRd w = rd.toNat ∧ getRs1 w = rs1.toNat ∧ getRs2 w = 0
  | .csr _ rd rs1 csr => getRd w = rd.toNat ∧ getRs1 w = rs1.toNat ∧ getCsr w = csr.toNat
  | .csrImm _ rd uimm csr => getRd w = rd.toNat ∧ getRs1 w = uimm.toNat ∧ getCsr w = csr.toNat
  | .fence .. | .fenceI | .ecall | .ebreak | .mret | .sret | .wfi | .sfenceVma .. => True

end Operands

section COperands

open CExtension

open ExtensionBase (getRd)

/-- The same for a compressed instruction. The amount of a shift comes back as it is below 32. -/
def COperands (w : BitVec 32) : CInstr → Prop
  | .addi4spn rd uimm => getRdp w = rd.reg.toNat ∧ getImmADDI4SPN w = place 32 2 uimm
  | .lw rd rs1 uimm =>
    getRdp w = rd.reg.toNat ∧ getRs1p w = rs1.reg.toNat ∧ getImmL w = place 32 2 uimm
  | .ld rd rs1 uimm =>
    getRdp w = rd.reg.toNat ∧ getRs1p w = rs1.reg.toNat ∧ getImmCL w = place 32 3 uimm
  | .sw rs1 rs2 uimm =>
    getRs1p w = rs1.reg.toNat ∧ getRs2p w = rs2.reg.toNat ∧ getImmL w = place 32 2 uimm
  | .sd rs1 rs2 uimm =>
    getRs1p w = rs1.reg.toNat ∧ getRs2p w = rs2.reg.toNat ∧ getImmCL w = place 32 3 uimm
  | .addi rd imm | .addiw rd imm | .li rd imm =>
    getRd w = rd.toNat ∧ getImmADDI w = imm.signExtend 32
  | .jal offset | .j offset => getImmJ w = (place 12 1 offset).signExtend 32
  | .addi16sp imm => getRd w = 2 ∧ getImmADDI16SP w = (place 10 4 imm).signExtend 32
  | .lui rd imm =>
    getRd w = rd.toNat ∧ getRd w ≠ 2 ∧ getImmLUI w = (place 18 12 imm).signExtend 32
  | .srli rd shamt | .srai rd shamt =>
    getRs1p w = rd.reg.toNat ∧ (shamt < 32 → getImmADDI w = shamt.setWidth 32)
  | .slli rd shamt => getRs1 w = rd.toNat ∧ (shamt < 32 → getImmADDI w = shamt.setWidth 32)
  | .andi rd imm => getRs1p w = rd.reg.toNat ∧ getImmADDI w = imm.signExtend 32
  | .sub rd rs2 | .xor rd rs2 | .or rd rs2 | .and rd rs2 | .subw rd rs2 | .addw rd rs2 =>
    getRs1p w = rd.reg.toNat ∧ getRs2p w = rs2.reg.toNat
  | .beqz rs1 offset | .bnez rs1 offset =>
    getRs1p w = rs1.reg.toNat ∧ getImmCB w = (place 9 1 offset).signExtend 32
  | .lwsp rd uimm => getRd w = rd.toNat ∧ getImmLWSP w = place 32 2 uimm
  | .ldsp rd uimm => getRd w = rd.toNat ∧ getImmLDSP w = place 32 3 uimm
  | .jr rs1 | .jalr rs1 => getRs1 w = rs1.toNat
  | .mv rd rs2 => getRd w = rd.toNat ∧ getRs2 w = rs2.toNat
  | .add rd rs2 => getRs1 w = rd.toNat ∧ getRs2 w = rs2.toNat
  | .swsp rs2 uimm => getRs2 w = rs2.toNat ∧ getImmCSS w = place 32 2 uimm
  | .sdsp rs2 uimm => getRs2 w = rs2.toNat ∧ getImmCSDSP w = place 32 3 uimm
  | .ebreak => True

end COperands

/-! ## Encoded words -/

/-- A 6-bit amount is below 32 when its top bit is clear. -/
theorem shamt_lt_iff (shamt : BitVec 6) : shamt < 32 ↔ shamt.getLsbD 5 = false := by
  rw [← BitVec.msb_eq_getLsbD_last, BitVec.msb_eq_decide, BitVec.lt_def, decide_eq_false_iff_not,
    not_le]
  rfl

/-- Below 32 the sign extension of an amount is its zero extension. -/
theorem signExtend_shamt {v : ℕ} {shamt : BitVec 6} (h : shamt < 32) :
    shamt.signExtend v = shamt.setWidth v := by
  apply BitVec.signExtend_eq_setWidth_of_msb_false
  rw [BitVec.msb_eq_getLsbD_last]
  exact (shamt_lt_iff shamt).mp h

/-- The 6-bit amount of a word shift is its 5-bit field: the bit above it is zero. -/
theorem range_25_20_shiftImmW (op : ShiftOp) (rd rs1 : Reg) (shamt : BitVec 5) :
    (range (encode (.shiftImmW op rd rs1 shamt)) 25 20).toNat = shamt.toNat := by
  have h5 : (range (encode (.shiftImmW op rd rs1 shamt)) 24 20).toNat = shamt.toNat := by
    simp [encode, encodeR]
  have h1 : (range (encode (.shiftImmW op rd rs1 shamt)) 25 25).toNat = 0 := by
    cases op <;> simp [encode, encodeR, ShiftOp.funct7]
  rw [toNat_range _ (by decide)] at h5 h1 ⊢
  omega

/-- The narrow registers define the lower half of the amounts. -/
theorem toNat_shamt_lt {op : ShiftOp} {rd rs1 : Reg} {shamt : BitVec 6}
    (hd : (Instr.shiftImm op rd rs1 shamt).Defined CpuType.RV32.xlen) : shamt.toNat < 2 ^ 5 :=
  (shamt_lt_iff shamt).mpr (hd.resolve_left (by decide))

theorem operands_encode {i : Instr} (hd : i.Defined T.xlen) : Operands T (encode i) i := by
  cases i with
  | lui rd imm => simp [Operands, encode, BaseIsa.getImmU, T.xlen_le, place_zero]
  | auipc rd imm => simp [Operands, encode, BaseIsa.getImmU, T.xlen_le, place_zero]
  | jal rd offset => simp [Operands, encode, getImmJ_encodeJ]
  | jalr rd rs1 imm => simp [Operands, encode, getImmI_encodeI]
  | branch op rs1 rs2 offset => simp [Operands, encode, getImmB_encodeB]
  | load op rd rs1 imm => simp [Operands, encode, getImmI_encodeI]
  | store op rs1 rs2 imm => simp [Operands, encode, getImmS_encodeS]
  | opImm op rd rs1 imm => simp [Operands, encode, getImmI_encodeI]
  | shiftImm op rd rs1 shamt =>
    refine ⟨by simp [encode], by simp [encode], by simp [encode], by simp [encode], ?_⟩
    rintro rfl
    have hn := toNat_shamt_lt hd
    simp [encode, BitVec.extractLsb'_toNat]
    omega
  | op op rd rs1 rs2 => simp [Operands, encode]
  | addiw rd rs1 imm => simp [Operands, encode, getImmI_encodeI]
  | shiftImmW op rd rs1 shamt =>
    exact ⟨by simp [encode], by simp [encode], range_25_20_shiftImmW op rd rs1 shamt,
      range_25_20_shiftImmW op rd rs1 shamt⟩
  | opW op rd rs1 rs2 => simp [Operands, encode]
  | mul op rd rs1 rs2 => simp [Operands, encode]
  | mulW op rd rs1 rs2 => simp [Operands, encode]
  | lrW aqrl rd rs1 => simp [Operands, encode]
  | scW aqrl rd rs1 rs2 => simp [Operands, encode]
  | amoW op aqrl rd rs1 rs2 => simp [Operands, encode]
  | csr op rd rs1 csr => simp [Operands, encode]
  | csrImm op rd uimm csr => simp [Operands, encode]
  | _ => trivial

theorem coperands_encode {c : CInstr} (hd : c.Defined T.xlen) (h : w.setWidth 16 = c.encode) :
    COperands w c := by
  cases c with
  | addi4spn rd uimm =>
    refine ⟨?_, getImmADDI4SPN_encode h⟩
    simp [CExtension.getRdp, range_of_setWidth_eq h, CInstr.encode, encodeC]
  | lw rd rs1 uimm => exact ⟨getRdp_fieldsCLW h, getRs1p_fieldsCLW h, getImmL_fieldsCLW h⟩
  | ld rd rs1 uimm => exact ⟨getRdp_fieldsCLD h, getRs1p_fieldsCLD h, getImmCL_fieldsCLD h⟩
  | sw rs1 rs2 uimm => exact ⟨getRs1p_fieldsCLW h, getRs2p_fieldsCLW h, getImmL_fieldsCLW h⟩
  | sd rs1 rs2 uimm => exact ⟨getRs1p_fieldsCLD h, getRs2p_fieldsCLD h, getImmCL_fieldsCLD h⟩
  | addi rd imm => exact ⟨getRd_fieldsCI h, getImmADDI_fieldsCI h⟩
  | jal offset => exact getImmJ_fieldsCJ h
  | addiw rd imm => exact ⟨getRd_fieldsCI h, getImmADDI_fieldsCI h⟩
  | li rd imm => exact ⟨getRd_fieldsCI h, getImmADDI_fieldsCI h⟩
  | addi16sp imm =>
    refine ⟨?_, getImmADDI16SP_encode h⟩
    simp [ExtensionBase.getRd, range_of_setWidth_eq h, CInstr.encode, encodeC]
  | lui rd imm =>
    refine ⟨getRd_fieldsCI h, ?_, getImmLUI_fieldsCI h⟩
    rw [getRd_fieldsCI h]
    exact fun he => hd.1 (BitVec.eq_of_toNat_eq he)
  | srli rd shamt | srai rd shamt =>
    refine ⟨getRs1p_fieldsCBI h, fun hs => ?_⟩
    exact (getImmADDI_fieldsCBI h).trans (signExtend_shamt hs)
  | andi rd imm => exact ⟨getRs1p_fieldsCBI h, getImmADDI_fieldsCBI h⟩
  | sub rd rs2 => exact ⟨getRs1p_fieldsCA h, getRs2p_fieldsCA h⟩
  | xor rd rs2 => exact ⟨getRs1p_fieldsCA h, getRs2p_fieldsCA h⟩
  | or rd rs2 => exact ⟨getRs1p_fieldsCA h, getRs2p_fieldsCA h⟩
  | and rd rs2 => exact ⟨getRs1p_fieldsCA h, getRs2p_fieldsCA h⟩
  | subw rd rs2 => exact ⟨getRs1p_fieldsCA h, getRs2p_fieldsCA h⟩
  | addw rd rs2 => exact ⟨getRs1p_fieldsCA h, getRs2p_fieldsCA h⟩
  | j offset => exact getImmJ_fieldsCJ h
  | beqz rs1 offset => exact ⟨getRs1p_fieldsCB h, getImmCB_fieldsCB h⟩
  | bnez rs1 offset => exact ⟨getRs1p_fieldsCB h, getImmCB_fieldsCB h⟩
  | slli rd shamt =>
    refine ⟨getRs1_fieldsCI h, fun hs => ?_⟩
    exact (getImmADDI_fieldsCI h).trans (signExtend_shamt hs)
  | lwsp rd uimm =>
    refine ⟨?_, getImmLWSP_encode h⟩
    simp [ExtensionBase.getRd, range_of_setWidth_eq h, CInstr.encode, encodeC]
  | ldsp rd uimm =>
    refine ⟨?_, getImmLDSP_encode h⟩
    simp [ExtensionBase.getRd, range_of_setWidth_eq h, CInstr.encode, encodeC]
  | jr rs1 => exact getRs1_fieldsCR h
  | mv rd rs2 => exact ⟨getRd_fieldsCR h, getRs2_fieldsCR h⟩
  | ebreak => trivial
  | jalr rs1 => exact getRs1_fieldsCR h
  | add rd rs2 => exact ⟨getRs1_fieldsCR h, getRs2_fieldsCR h⟩
  | swsp rs2 uimm =>
    refine ⟨?_, getImmCSS_encode h⟩
    simp [CExtension.getRs2, range_of_setWidth_eq h, CInstr.encode, encodeC]
  | sdsp rs2 uimm =>
    refine ⟨?_, getImmCSDSP_encode h⟩
    simp [CExtension.getRs2, range_of_setWidth_eq h, CInstr.encode, encodeC]

/-- Every encoded instruction is decoded to its own operation and operands, and so is every word
whose low halfword encodes a compressed instruction. -/
theorem decode_undoes_encode (T : CpuType) :
    (∀ i : Instr, i.Defined T.xlen →
      decodeCascade T (encode i) = instrCode i ∧ Operands T (encode i) i) ∧
    (∀ (c : CInstr) (w : BitVec 32), c.Defined T.xlen → w.setWidth 16 = c.encode →
      decodeCascade T w = .c (compressedCode c) ∧ COperands w c) :=
  ⟨fun i hd => ⟨decodeCascade_encode i, operands_encode hd⟩, fun c _ hd h =>
    ⟨decodeCascade_c (decode_compressed hd h) (opcode_compressed h) (compressedCode_ne_error c),
      coperands_encode hd h⟩⟩

/-- `lw x5, -4(x8)`, and `c.lw x9, 4(x8)` below an arbitrary halfword. -/
theorem decode_undoes_encode_lw :
    (decodeCascade .RV32 (encode (.load .lw 5 8 (-4))) = .base .OP_LW ∧
      Operands .RV32 (encode (.load .lw 5 8 (-4))) (.load .lw 5 8 (-4))) ∧
    decodeCascade .RV64 0xABCD4044 = .c .OP_C_LW ∧ COperands 0xABCD4044 (.lw 1 0 1) :=
  ⟨(decode_undoes_encode .RV32).1 (.load .lw 5 8 (-4)) (by decide),
    (decode_undoes_encode .RV64).2 (.lw 1 0 1) 0xABCD4044 (by decide) (by decide)⟩

end RiscvTlm
