import RiscvTlm.Encoding

/-!
# Decoding an encoded instruction

The operation code each instruction has in the source's enumerations, and `decodeCascade_encode`:
the cascade gives the encoded word of an instruction that code.
-/

namespace RiscvTlm

open Isa BitField

variable {T : CpuType}

/-! ## Operation codes -/

def branchCode : BranchOp → OpCodes
  | .beq => .OP_BEQ | .bne => .OP_BNE | .blt => .OP_BLT
  | .bge => .OP_BGE | .bltu => .OP_BLTU | .bgeu => .OP_BGEU

def loadCode : LoadOp → OpCodes
  | .lb => .OP_LB | .lh => .OP_LH | .lw => .OP_LW | .ld => .OP_LD
  | .lbu => .OP_LBU | .lhu => .OP_LHU | .lwu => .OP_LWU

def storeCode : StoreOp → OpCodes
  | .sb => .OP_SB | .sh => .OP_SH | .sw => .OP_SW | .sd => .OP_SD

def immCode : ImmOp → OpCodes
  | .addi => .OP_ADDI | .slti => .OP_SLTI | .sltiu => .OP_SLTIU
  | .xori => .OP_XORI | .ori => .OP_ORI | .andi => .OP_ANDI

def shiftCode : ShiftOp → OpCodes
  | .sll => .OP_SLLI | .srl => .OP_SRLI | .sra => .OP_SRAI

def shiftWCode : ShiftOp → OpCodes
  | .sll => .OP_SLLIW | .srl => .OP_SRLIW | .sra => .OP_SRAIW

def regCode : RegOp → OpCodes
  | .add => .OP_ADD | .sub => .OP_SUB | .sll => .OP_SLL | .slt => .OP_SLT | .sltu => .OP_SLTU
  | .xor => .OP_XOR | .srl => .OP_SRL | .sra => .OP_SRA | .or => .OP_OR | .and => .OP_AND

def regWCode : RegOpW → OpCodes
  | .addw => .OP_ADDW | .subw => .OP_SUBW | .sllw => .OP_SLLW | .srlw => .OP_SRLW
  | .sraw => .OP_SRAW

def mulCode : MulOp → OpMCodes
  | .mul => .OP_M_MUL | .mulh => .OP_M_MULH | .mulhsu => .OP_M_MULHSU | .mulhu => .OP_M_MULHU
  | .div => .OP_M_DIV | .divu => .OP_M_DIVU | .rem => .OP_M_REM | .remu => .OP_M_REMU

def mulWCode : MulOpW → OpMCodes
  | .mulw => .OP_M_MULW | .divw => .OP_M_DIVW | .divuw => .OP_M_DIVUW | .remw => .OP_M_REMW
  | .remuw => .OP_M_REMUW

def amoCode : AmoOp → OpACodes
  | .swap => .OP_A_AMOSWAP | .add => .OP_A_AMOADD | .xor => .OP_A_AMOXOR | .and => .OP_A_AMOAND
  | .or => .OP_A_AMOOR | .min => .OP_A_AMOMIN | .max => .OP_A_AMOMAX | .minu => .OP_A_AMOMINU
  | .maxu => .OP_A_AMOMAXU

def csrCode : CsrOp → OpCodes
  | .rw => .OP_CSRRW | .rs => .OP_CSRRS | .rc => .OP_CSRRC

def csrImmCode : CsrOp → OpCodes
  | .rw => .OP_CSRRWI | .rs => .OP_CSRRSI | .rc => .OP_CSRRCI

/-- The extension and the operation code of an instruction. -/
def instrCode : Instr → Decoded
  | .lui .. => .base .OP_LUI
  | .auipc .. => .base .OP_AUIPC
  | .jal .. => .base .OP_JAL
  | .jalr .. => .base .OP_JALR
  | .branch op .. => .base (branchCode op)
  | .load op .. => .base (loadCode op)
  | .store op .. => .base (storeCode op)
  | .opImm op .. => .base (immCode op)
  | .shiftImm op .. => .base (shiftCode op)
  | .op op .. => .base (regCode op)
  | .addiw .. => .base .OP_ADDIW
  | .shiftImmW op .. => .base (shiftWCode op)
  | .opW op .. => .base (regWCode op)
  | .mul op .. => .m (mulCode op)
  | .mulW op .. => .m (mulWCode op)
  | .lrW .. => .a .OP_A_LR
  | .scW .. => .a .OP_A_SC
  | .amoW op .. => .a (amoCode op)
  | .csr op .. => .base (csrCode op)
  | .csrImm op .. => .base (csrImmCode op)
  | .fence .. => .base .OP_FENCE
  | .fenceI => .base .OP_FENCE
  | .ecall => .base .OP_ECALL
  | .ebreak => .base .OP_EBREAK
  | .mret => .base .OP_MRET
  | .sret => .base .OP_SRET
  | .wfi => .base .OP_WFI
  | .sfenceVma .. => .base .OP_SFENCE

/-! ## The base decoder -/

/-- A word the base decoder accepts goes to the base extension. -/
theorem decodeCascade_base {w : BitVec 32} {code : OpCodes} (h : BaseIsa.decode w = code)
    (hne : code ≠ .OP_ERROR) : decodeCascade T w = .base code := by
  simp [decodeCascade, h, hne]

theorem decode_encode_branch (op : BranchOp) (rs1 rs2 : Reg) (offset : BitVec 12) :
    BaseIsa.decode (encode (.branch op rs1 rs2 offset)) = branchCode op := by
  cases op <;> simp [BaseIsa.decode, encode, BranchOp.funct3, branchCode]

theorem decode_encode_load (op : LoadOp) (rd rs1 : Reg) (imm : BitVec 12) :
    BaseIsa.decode (encode (.load op rd rs1 imm)) = loadCode op := by
  cases op <;> simp [BaseIsa.decode, encode, LoadOp.funct3, loadCode]

theorem decode_encode_store (op : StoreOp) (rs1 rs2 : Reg) (imm : BitVec 12) :
    BaseIsa.decode (encode (.store op rs1 rs2 imm)) = storeCode op := by
  cases op <;> simp [BaseIsa.decode, encode, StoreOp.funct3, storeCode]

theorem decode_encode_opImm (op : ImmOp) (rd rs1 : Reg) (imm : BitVec 12) :
    BaseIsa.decode (encode (.opImm op rd rs1 imm)) = immCode op := by
  cases op <;> simp [BaseIsa.decode, encode, ImmOp.funct3, immCode]

theorem decode_encode_shiftImm (op : ShiftOp) (rd rs1 : Reg) (shamt : BitVec 6) :
    BaseIsa.decode (encode (.shiftImm op rd rs1 shamt)) = shiftCode op := by
  cases op <;> simp [BaseIsa.decode, encode, ShiftOp.funct3, ShiftOp.funct6, shiftCode]

theorem decode_encode_op (op : RegOp) (rd rs1 rs2 : Reg) :
    BaseIsa.decode (encode (.op op rd rs1 rs2)) = regCode op := by
  cases op <;> simp [BaseIsa.decode, encode, RegOp.funct3, RegOp.funct7, regCode]

theorem decode_encode_shiftImmW (op : ShiftOp) (rd rs1 : Reg) (shamt : BitVec 5) :
    BaseIsa.decode (encode (.shiftImmW op rd rs1 shamt)) = shiftWCode op := by
  cases op <;> simp [BaseIsa.decode, encode, ShiftOp.funct3, ShiftOp.funct7, shiftWCode]

theorem decode_encode_opW (op : RegOpW) (rd rs1 rs2 : Reg) :
    BaseIsa.decode (encode (.opW op rd rs1 rs2)) = regWCode op := by
  cases op <;> simp [BaseIsa.decode, encode, RegOpW.funct3, RegOpW.funct7, regWCode]

theorem decode_encode_csr (op : CsrOp) (rd rs1 : Reg) (csr : BitVec 12) :
    BaseIsa.decode (encode (.csr op rd rs1 csr)) = csrCode op := by
  cases op <;> simp [BaseIsa.decode, encode, CsrOp.funct3, csrCode]

theorem decode_encode_csrImm (op : CsrOp) (rd : Reg) (uimm : BitVec 5) (csr : BitVec 12) :
    BaseIsa.decode (encode (.csrImm op rd uimm csr)) = csrImmCode op := by
  cases op <;> simp [BaseIsa.decode, encode, CsrOp.funct3Imm, csrImmCode]

/-- `SFENCE.VMA` is found by its `funct7`: its CSR field is none of the listed ones. -/
theorem decode_encode_sfenceVma (rs1 rs2 : Reg) :
    BaseIsa.decode (encode (.sfenceVma rs1 rs2)) = .OP_SFENCE := by
  have h7 : (range (encode (.sfenceVma rs1 rs2)) 31 25).toNat = 9 := by
    simp [encode, encodeR]
  have hc : BaseIsa.getCsr (encode (.sfenceVma rs1 rs2)) / 32 = 9 := by
    rw [BaseIsa.getCsr, toNat_range _ (by decide)]
    rw [toNat_range _ (by decide)] at h7
    omega
  simp only [BaseIsa.decode, h7]
  have hop : BaseIsa.opcode (encode (.sfenceVma rs1 rs2)) = 0b1110011 := by simp [encode]
  have hf : ExtensionBase.getFunct3 (encode (.sfenceVma rs1 rs2)) = 0 := by simp [encode]
  simp only [hop, hf]
  split <;> simp_all

/-! ## The M and A decoders -/

theorem decodeCascade_encode_mul (op : MulOp) (rd rs1 rs2 : Reg) :
    decodeCascade T (encode (.mul op rd rs1 rs2)) = .m (mulCode op) := by
  cases op <;>
    simp [decodeCascade, BaseIsa.decode, CExtension.decode, MExtension.decode, encode,
      MulOp.funct3, mulCode, place]

theorem decodeCascade_encode_mulW (op : MulOpW) (rd rs1 rs2 : Reg) :
    decodeCascade T (encode (.mulW op rd rs1 rs2)) = .m (mulWCode op) := by
  cases op <;>
    simp [decodeCascade, BaseIsa.decode, CExtension.decode, MExtension.decode, encode,
      MulOpW.funct3, mulWCode, place]

/-- The first three decoders reject the format of the atomics. -/
theorem decodeCascade_encodeAmo {f5 : BitVec 5} {aqrl : BitVec 2} {rs2 rs1 rd : Reg}
    {code : OpACodes} (h : AExtension.decode (encodeAmo f5 aqrl rs2 rs1 rd) = code)
    (hne : code ≠ .OP_A_ERROR) : decodeCascade T (encodeAmo f5 aqrl rs2 rs1 rd) = .a code := by
  simp [decodeCascade, BaseIsa.decode, CExtension.decode, MExtension.decode, h, hne]

theorem decode_encode_amo (op : AmoOp) (aqrl : BitVec 2) (rs2 rs1 rd : Reg) :
    AExtension.decode (encodeAmo op.funct5 aqrl rs2 rs1 rd) = amoCode op := by
  cases op <;> simp [AExtension.decode, AmoOp.funct5, amoCode]

/-! ## The whole cascade -/

theorem decodeCascade_encode (i : Instr) : decodeCascade T (encode i) = instrCode i := by
  cases i with
  | lui rd imm => exact decodeCascade_base (by simp [BaseIsa.decode, encode]) (by decide)
  | auipc rd imm => exact decodeCascade_base (by simp [BaseIsa.decode, encode]) (by decide)
  | jal rd offset => exact decodeCascade_base (by simp [BaseIsa.decode, encode]) (by decide)
  | jalr rd rs1 imm => exact decodeCascade_base (by simp [BaseIsa.decode, encode]) (by decide)
  | branch op rs1 rs2 offset =>
    exact decodeCascade_base (decode_encode_branch op rs1 rs2 offset) (by cases op <;> decide)
  | load op rd rs1 imm =>
    exact decodeCascade_base (decode_encode_load op rd rs1 imm) (by cases op <;> decide)
  | store op rs1 rs2 imm =>
    exact decodeCascade_base (decode_encode_store op rs1 rs2 imm) (by cases op <;> decide)
  | opImm op rd rs1 imm =>
    exact decodeCascade_base (decode_encode_opImm op rd rs1 imm) (by cases op <;> decide)
  | shiftImm op rd rs1 shamt =>
    exact decodeCascade_base (decode_encode_shiftImm op rd rs1 shamt) (by cases op <;> decide)
  | op op rd rs1 rs2 =>
    exact decodeCascade_base (decode_encode_op op rd rs1 rs2) (by cases op <;> decide)
  | addiw rd rs1 imm => exact decodeCascade_base (by simp [BaseIsa.decode, encode]) (by decide)
  | shiftImmW op rd rs1 shamt =>
    exact decodeCascade_base (decode_encode_shiftImmW op rd rs1 shamt) (by cases op <;> decide)
  | opW op rd rs1 rs2 =>
    exact decodeCascade_base (decode_encode_opW op rd rs1 rs2) (by cases op <;> decide)
  | mul op rd rs1 rs2 => exact decodeCascade_encode_mul op rd rs1 rs2
  | mulW op rd rs1 rs2 => exact decodeCascade_encode_mulW op rd rs1 rs2
  | lrW aqrl rd rs1 => exact decodeCascade_encodeAmo (by simp [AExtension.decode]) (by decide)
  | scW aqrl rd rs1 rs2 => exact decodeCascade_encodeAmo (by simp [AExtension.decode]) (by decide)
  | amoW op aqrl rd rs1 rs2 =>
    exact decodeCascade_encodeAmo (decode_encode_amo op aqrl rs2 rs1 rd) (by cases op <;> decide)
  | csr op rd rs1 csr =>
    exact decodeCascade_base (decode_encode_csr op rd rs1 csr) (by cases op <;> decide)
  | csrImm op rd uimm csr =>
    exact decodeCascade_base (decode_encode_csrImm op rd uimm csr) (by cases op <;> decide)
  | fence fm pred succ =>
    exact decodeCascade_base (by simp [BaseIsa.decode, BaseIsa.opcode, encode, encodeFence])
      (by decide)
  | sfenceVma rs1 rs2 => exact decodeCascade_base (decode_encode_sfenceVma rs1 rs2) (by decide)
  | fenceI => exact decodeCascade_base (by decide) (by decide)
  | ecall => exact decodeCascade_base (by decide) (by decide)
  | ebreak => exact decodeCascade_base (by decide) (by decide)
  | mret => exact decodeCascade_base (by decide) (by decide)
  | sret => exact decodeCascade_base (by decide) (by decide)
  | wfi => exact decodeCascade_base (by decide) (by decide)

end RiscvTlm
