import RiscvTlm.Lib.BitField

/-!
# Instructions and their encoding

The 32-bit instructions of the base sets, the M and A extensions, Zicsr, the fences and the
privileged instructions, grouped by format, with the encoder of the manual. An immediate is kept as
the bits the encoding holds: branch and jump offsets without their bit 0. `Instr.Defined w i` says
that the instruction exists for registers of `w` bits.
-/

namespace Isa

open BitField

abbrev Reg := BitVec 5

/-! ## Operations -/

inductive BranchOp
  | beq | bne | blt | bge | bltu | bgeu
  deriving DecidableEq, Repr

inductive LoadOp
  | lb | lh | lw | ld | lbu | lhu | lwu
  deriving DecidableEq, Repr

inductive StoreOp
  | sb | sh | sw | sd
  deriving DecidableEq, Repr

inductive ImmOp
  | addi | slti | sltiu | xori | ori | andi
  deriving DecidableEq, Repr

inductive ShiftOp
  | sll | srl | sra
  deriving DecidableEq, Repr

inductive RegOp
  | add | sub | sll | slt | sltu | xor | srl | sra | or | and
  deriving DecidableEq, Repr

inductive RegOpW
  | addw | subw | sllw | srlw | sraw
  deriving DecidableEq, Repr

inductive MulOp
  | mul | mulh | mulhsu | mulhu | div | divu | rem | remu
  deriving DecidableEq, Repr

inductive MulOpW
  | mulw | divw | divuw | remw | remuw
  deriving DecidableEq, Repr

inductive AmoOp
  | swap | add | xor | and | or | min | max | minu | maxu
  deriving DecidableEq, Repr

inductive CsrOp
  | rw | rs | rc
  deriving DecidableEq, Repr

/-! ## Instructions -/

inductive Instr
  | lui (rd : Reg) (imm : BitVec 20)
  | auipc (rd : Reg) (imm : BitVec 20)
  | jal (rd : Reg) (offset : BitVec 20)
  | jalr (rd rs1 : Reg) (imm : BitVec 12)
  | branch (op : BranchOp) (rs1 rs2 : Reg) (offset : BitVec 12)
  | load (op : LoadOp) (rd rs1 : Reg) (imm : BitVec 12)
  | store (op : StoreOp) (rs1 rs2 : Reg) (imm : BitVec 12)
  | opImm (op : ImmOp) (rd rs1 : Reg) (imm : BitVec 12)
  | shiftImm (op : ShiftOp) (rd rs1 : Reg) (shamt : BitVec 6)
  | op (op : RegOp) (rd rs1 rs2 : Reg)
  | addiw (rd rs1 : Reg) (imm : BitVec 12)
  | shiftImmW (op : ShiftOp) (rd rs1 : Reg) (shamt : BitVec 5)
  | opW (op : RegOpW) (rd rs1 rs2 : Reg)
  | mul (op : MulOp) (rd rs1 rs2 : Reg)
  | mulW (op : MulOpW) (rd rs1 rs2 : Reg)
  | lrW (aqrl : BitVec 2) (rd rs1 : Reg)
  | scW (aqrl : BitVec 2) (rd rs1 rs2 : Reg)
  | amoW (op : AmoOp) (aqrl : BitVec 2) (rd rs1 rs2 : Reg)
  | csr (op : CsrOp) (rd rs1 : Reg) (csr : BitVec 12)
  | csrImm (op : CsrOp) (rd : Reg) (uimm : BitVec 5) (csr : BitVec 12)
  | fence (fm pred succ : BitVec 4)
  | fenceI
  | ecall
  | ebreak
  | mret
  | sret
  | wfi
  | sfenceVma (rs1 rs2 : Reg)
  deriving Repr

/-- The instruction exists for registers of `w` bits. -/
def Instr.Defined (w : ℕ) : Instr → Prop
  | .load .ld .. | .load .lwu .. | .store .sd .. => w = 64
  | .addiw .. | .shiftImmW .. | .opW .. | .mulW .. => w = 64
  | .shiftImm _ _ _ shamt => w = 64 ∨ shamt.getLsbD 5 = false
  | _ => True

instance (w : ℕ) (i : Instr) : Decidable (i.Defined w) := by
  unfold Instr.Defined
  split <;> infer_instance

/-! ## Fields of an operation -/

def BranchOp.funct3 : BranchOp → BitVec 3
  | .beq => 0b000 | .bne => 0b001 | .blt => 0b100
  | .bge => 0b101 | .bltu => 0b110 | .bgeu => 0b111

def LoadOp.funct3 : LoadOp → BitVec 3
  | .lb => 0b000 | .lh => 0b001 | .lw => 0b010 | .ld => 0b011
  | .lbu => 0b100 | .lhu => 0b101 | .lwu => 0b110

def StoreOp.funct3 : StoreOp → BitVec 3
  | .sb => 0b000 | .sh => 0b001 | .sw => 0b010 | .sd => 0b011

def ImmOp.funct3 : ImmOp → BitVec 3
  | .addi => 0b000 | .slti => 0b010 | .sltiu => 0b011
  | .xori => 0b100 | .ori => 0b110 | .andi => 0b111

def ShiftOp.funct3 : ShiftOp → BitVec 3
  | .sll => 0b001 | .srl => 0b101 | .sra => 0b101

def ShiftOp.funct6 : ShiftOp → BitVec 6
  | .sll => 0b000000 | .srl => 0b000000 | .sra => 0b010000

def ShiftOp.funct7 : ShiftOp → BitVec 7
  | .sll => 0b0000000 | .srl => 0b0000000 | .sra => 0b0100000

def RegOp.funct3 : RegOp → BitVec 3
  | .add => 0b000 | .sub => 0b000 | .sll => 0b001 | .slt => 0b010 | .sltu => 0b011
  | .xor => 0b100 | .srl => 0b101 | .sra => 0b101 | .or => 0b110 | .and => 0b111

def RegOp.funct7 : RegOp → BitVec 7
  | .sub => 0b0100000 | .sra => 0b0100000 | _ => 0b0000000

def RegOpW.funct3 : RegOpW → BitVec 3
  | .addw => 0b000 | .subw => 0b000 | .sllw => 0b001 | .srlw => 0b101 | .sraw => 0b101

def RegOpW.funct7 : RegOpW → BitVec 7
  | .subw => 0b0100000 | .sraw => 0b0100000 | _ => 0b0000000

def MulOp.funct3 : MulOp → BitVec 3
  | .mul => 0b000 | .mulh => 0b001 | .mulhsu => 0b010 | .mulhu => 0b011
  | .div => 0b100 | .divu => 0b101 | .rem => 0b110 | .remu => 0b111

def MulOpW.funct3 : MulOpW → BitVec 3
  | .mulw => 0b000 | .divw => 0b100 | .divuw => 0b101 | .remw => 0b110 | .remuw => 0b111

def AmoOp.funct5 : AmoOp → BitVec 5
  | .swap => 0b00001 | .add => 0b00000 | .xor => 0b00100 | .and => 0b01100 | .or => 0b01000
  | .min => 0b10000 | .max => 0b10100 | .minu => 0b11000 | .maxu => 0b11100

def CsrOp.funct3 : CsrOp → BitVec 3
  | .rw => 0b001 | .rs => 0b010 | .rc => 0b011

def CsrOp.funct3Imm : CsrOp → BitVec 3
  | .rw => 0b101 | .rs => 0b110 | .rc => 0b111

/-! ## Formats -/

def encodeR (funct7 : BitVec 7) (rs2 rs1 : Reg) (funct3 : BitVec 3) (rd : Reg)
    (opcode : BitVec 7) : BitVec 32 :=
  place 32 25 funct7 ||| place 32 20 rs2 ||| place 32 15 rs1 ||| place 32 12 funct3 |||
    place 32 7 rd ||| place 32 0 opcode

def encodeI (imm : BitVec 12) (rs1 : Reg) (funct3 : BitVec 3) (rd : Reg) (opcode : BitVec 7) :
    BitVec 32 :=
  place 32 20 imm ||| place 32 15 rs1 ||| place 32 12 funct3 ||| place 32 7 rd |||
    place 32 0 opcode

/-- The shift format of the wide registers: six bits of function, six of amount. -/
def encodeShift (funct6 : BitVec 6) (shamt : BitVec 6) (rs1 : Reg) (funct3 : BitVec 3) (rd : Reg)
    (opcode : BitVec 7) : BitVec 32 :=
  place 32 26 funct6 ||| place 32 20 shamt ||| place 32 15 rs1 ||| place 32 12 funct3 |||
    place 32 7 rd ||| place 32 0 opcode

def encodeS (imm : BitVec 12) (rs2 rs1 : Reg) (funct3 : BitVec 3) (opcode : BitVec 7) :
    BitVec 32 :=
  place 32 25 (imm.extractLsb' 5 7) ||| place 32 20 rs2 ||| place 32 15 rs1 |||
    place 32 12 funct3 ||| place 32 7 (imm.extractLsb' 0 5) ||| place 32 0 opcode

/-- Bit `i` of the offset is bit `i - 1` of the argument. -/
def encodeB (offset : BitVec 12) (rs2 rs1 : Reg) (funct3 : BitVec 3) (opcode : BitVec 7) :
    BitVec 32 :=
  place 32 31 (offset.extractLsb' 11 1) ||| place 32 25 (offset.extractLsb' 4 6) |||
    place 32 20 rs2 ||| place 32 15 rs1 ||| place 32 12 funct3 |||
    place 32 8 (offset.extractLsb' 0 4) ||| place 32 7 (offset.extractLsb' 10 1) |||
    place 32 0 opcode

def encodeU (imm : BitVec 20) (rd : Reg) (opcode : BitVec 7) : BitVec 32 :=
  place 32 12 imm ||| place 32 7 rd ||| place 32 0 opcode

/-- Bit `i` of the offset is bit `i - 1` of the argument. -/
def encodeJ (offset : BitVec 20) (rd : Reg) (opcode : BitVec 7) : BitVec 32 :=
  place 32 31 (offset.extractLsb' 19 1) ||| place 32 21 (offset.extractLsb' 0 10) |||
    place 32 20 (offset.extractLsb' 10 1) ||| place 32 12 (offset.extractLsb' 11 8) |||
    place 32 7 rd ||| place 32 0 opcode

def encodeAmo (funct5 : BitVec 5) (aqrl : BitVec 2) (rs2 rs1 : Reg) (rd : Reg) : BitVec 32 :=
  place 32 27 funct5 ||| place 32 25 aqrl ||| place 32 20 rs2 ||| place 32 15 rs1 |||
    place 32 12 (0b010#3) ||| place 32 7 rd ||| place 32 0 (0b0101111#7)

def encodeFence (fm pred succ : BitVec 4) (funct3 : BitVec 3) : BitVec 32 :=
  place 32 28 fm ||| place 32 24 pred ||| place 32 20 succ ||| place 32 12 funct3 |||
    place 32 0 (0b0001111#7)

/-- The encoder. -/
def encode : Instr → BitVec 32
  | .lui rd imm => encodeU imm rd 0b0110111
  | .auipc rd imm => encodeU imm rd 0b0010111
  | .jal rd offset => encodeJ offset rd 0b1101111
  | .jalr rd rs1 imm => encodeI imm rs1 0b000 rd 0b1100111
  | .branch op rs1 rs2 offset => encodeB offset rs2 rs1 op.funct3 0b1100011
  | .load op rd rs1 imm => encodeI imm rs1 op.funct3 rd 0b0000011
  | .store op rs1 rs2 imm => encodeS imm rs2 rs1 op.funct3 0b0100011
  | .opImm op rd rs1 imm => encodeI imm rs1 op.funct3 rd 0b0010011
  | .shiftImm op rd rs1 shamt => encodeShift op.funct6 shamt rs1 op.funct3 rd 0b0010011
  | .op op rd rs1 rs2 => encodeR op.funct7 rs2 rs1 op.funct3 rd 0b0110011
  | .addiw rd rs1 imm => encodeI imm rs1 0b000 rd 0b0011011
  | .shiftImmW op rd rs1 shamt => encodeR op.funct7 shamt rs1 op.funct3 rd 0b0011011
  | .opW op rd rs1 rs2 => encodeR op.funct7 rs2 rs1 op.funct3 rd 0b0111011
  | .mul op rd rs1 rs2 => encodeR 0b0000001 rs2 rs1 op.funct3 rd 0b0110011
  | .mulW op rd rs1 rs2 => encodeR 0b0000001 rs2 rs1 op.funct3 rd 0b0111011
  | .lrW aqrl rd rs1 => encodeAmo 0b00010 aqrl 0 rs1 rd
  | .scW aqrl rd rs1 rs2 => encodeAmo 0b00011 aqrl rs2 rs1 rd
  | .amoW op aqrl rd rs1 rs2 => encodeAmo op.funct5 aqrl rs2 rs1 rd
  | .csr op rd rs1 csr => encodeI csr rs1 op.funct3 rd 0b1110011
  | .csrImm op rd uimm csr => encodeI csr uimm op.funct3Imm rd 0b1110011
  | .fence fm pred succ => encodeFence fm pred succ 0b000
  | .fenceI => encodeFence 0 0 0 0b001
  | .ecall => encodeI 0x000 0 0b000 0 0b1110011
  | .ebreak => encodeI 0x001 0 0b000 0 0b1110011
  | .sret => encodeI 0x102 0 0b000 0 0b1110011
  | .mret => encodeI 0x302 0 0b000 0 0b1110011
  | .wfi => encodeI 0x105 0 0b000 0 0b1110011
  | .sfenceVma rs1 rs2 => encodeR 0b0001001 rs2 rs1 0b000 0 0b1110011

/-! ## Immediates -/

/-- The byte offset of a branch. -/
def branchOffset (w : ℕ) (offset : BitVec 12) : BitVec w := (place 13 1 offset).signExtend w

/-- The byte offset of a jump. -/
def jumpOffset (w : ℕ) (offset : BitVec 20) : BitVec w := (place 21 1 offset).signExtend w

/-- The value of an upper immediate. -/
def upperImm (w : ℕ) (imm : BitVec 20) : BitVec w := (place 32 12 imm).signExtend w

example : encode (.opImm .addi 1 2 (-1)) = 0xFFF10093 := by decide

example : encode (.jal 1 4) = 0x008000EF := by decide

end Isa
