import RiscvTlm.Isa.Instr

/-!
# Compressed instructions

The 16-bit instructions without the floating-point ones, the encoder of the manual and the 32-bit
instruction each expands to. An immediate is kept as the bits the encoding holds, in their
architectural order. `CInstr.Defined w c` leaves out the reserved encodings and keeps the hints.
-/

namespace Isa

open BitField

/-- The registers `x8` to `x15`. -/
abbrev RegC := BitVec 3

/-- The full number of a short register field. -/
def RegC.reg (r : RegC) : Reg := 8 + r.setWidth 5

inductive CInstr
  | addi4spn (rd : RegC) (uimm : BitVec 8)
  | lw (rd rs1 : RegC) (uimm : BitVec 5)
  | ld (rd rs1 : RegC) (uimm : BitVec 5)
  | sw (rs1 rs2 : RegC) (uimm : BitVec 5)
  | sd (rs1 rs2 : RegC) (uimm : BitVec 5)
  | addi (rd : Reg) (imm : BitVec 6)
  | jal (offset : BitVec 11)
  | addiw (rd : Reg) (imm : BitVec 6)
  | li (rd : Reg) (imm : BitVec 6)
  | addi16sp (imm : BitVec 6)
  | lui (rd : Reg) (imm : BitVec 6)
  | srli (rd : RegC) (shamt : BitVec 6)
  | srai (rd : RegC) (shamt : BitVec 6)
  | andi (rd : RegC) (imm : BitVec 6)
  | sub (rd rs2 : RegC)
  | xor (rd rs2 : RegC)
  | or (rd rs2 : RegC)
  | and (rd rs2 : RegC)
  | subw (rd rs2 : RegC)
  | addw (rd rs2 : RegC)
  | j (offset : BitVec 11)
  | beqz (rs1 : RegC) (offset : BitVec 8)
  | bnez (rs1 : RegC) (offset : BitVec 8)
  | slli (rd : Reg) (shamt : BitVec 6)
  | lwsp (rd : Reg) (uimm : BitVec 6)
  | ldsp (rd : Reg) (uimm : BitVec 6)
  | jr (rs1 : Reg)
  | mv (rd rs2 : Reg)
  | ebreak
  | jalr (rs1 : Reg)
  | add (rd rs2 : Reg)
  | swsp (rs2 : Reg) (uimm : BitVec 6)
  | sdsp (rs2 : Reg) (uimm : BitVec 6)
  deriving Repr

/-- The encoding is defined for registers of `w` bits: neither reserved nor left to custom use. -/
def CInstr.Defined (w : ℕ) : CInstr → Prop
  | .addi4spn _ uimm => uimm ≠ 0
  | .ld .. | .sd .. | .subw .. | .addw .. | .sdsp .. => w = 64
  | .jal _ => w = 32
  | .addiw rd _ => w = 64 ∧ rd ≠ 0
  | .addi16sp imm => imm ≠ 0
  | .lui rd imm => rd ≠ 2 ∧ imm ≠ 0
  | .srli _ shamt | .srai _ shamt | .slli _ shamt => w = 64 ∨ shamt.getLsbD 5 = false
  | .lwsp rd _ => rd ≠ 0
  | .ldsp rd _ => w = 64 ∧ rd ≠ 0
  | .jr rs1 | .jalr rs1 => rs1 ≠ 0
  | .mv _ rs2 | .add _ rs2 => rs2 ≠ 0
  | _ => True

instance (w : ℕ) (c : CInstr) : Decidable (c.Defined w) := by
  unfold CInstr.Defined
  split <;> infer_instance

/-! ## Formats -/

/-- `funct3`, the fields in bits 12 down to 2, and the quadrant. -/
def encodeC (funct3 : BitVec 3) (fields : BitVec 16) (quadrant : BitVec 2) : BitVec 16 :=
  place 16 13 funct3 ||| fields ||| place 16 0 quadrant

/-- Bit 12 and bits 6 to 2 hold a six-bit immediate. -/
def fieldsCI (rd : Reg) (imm : BitVec 6) : BitVec 16 :=
  place 16 12 (imm.extractLsb' 5 1) ||| place 16 7 rd ||| place 16 2 (imm.extractLsb' 0 5)

def fieldsCR (funct1 : BitVec 1) (rd rs2 : Reg) : BitVec 16 :=
  place 16 12 funct1 ||| place 16 7 rd ||| place 16 2 rs2

/-- The word offset `uimm[6:2]` of a load or store. -/
def fieldsCLW (rs1 : RegC) (uimm : BitVec 5) (r : RegC) : BitVec 16 :=
  place 16 10 (uimm.extractLsb' 1 3) ||| place 16 7 rs1 ||| place 16 6 (uimm.extractLsb' 0 1) |||
    place 16 5 (uimm.extractLsb' 4 1) ||| place 16 2 r

/-- The doubleword offset `uimm[7:3]` of a load or store. -/
def fieldsCLD (rs1 : RegC) (uimm : BitVec 5) (r : RegC) : BitVec 16 :=
  place 16 10 (uimm.extractLsb' 0 3) ||| place 16 7 rs1 ||| place 16 5 (uimm.extractLsb' 3 2) |||
    place 16 2 r

/-- `imm[11|4|9:8|10|6|7|3:1|5]`, with bit `i` of the offset at bit `i - 1`. -/
def fieldsCJ (offset : BitVec 11) : BitVec 16 :=
  place 16 12 (offset.extractLsb' 10 1) ||| place 16 11 (offset.extractLsb' 3 1) |||
    place 16 9 (offset.extractLsb' 7 2) ||| place 16 8 (offset.extractLsb' 9 1) |||
    place 16 7 (offset.extractLsb' 5 1) ||| place 16 6 (offset.extractLsb' 6 1) |||
    place 16 3 (offset.extractLsb' 0 3) ||| place 16 2 (offset.extractLsb' 4 1)

/-- `imm[8|4:3]`, the register, `imm[7:6|2:1|5]`. -/
def fieldsCB (rs1 : RegC) (offset : BitVec 8) : BitVec 16 :=
  place 16 12 (offset.extractLsb' 7 1) ||| place 16 10 (offset.extractLsb' 2 2) |||
    place 16 7 rs1 ||| place 16 5 (offset.extractLsb' 5 2) |||
    place 16 3 (offset.extractLsb' 0 2) ||| place 16 2 (offset.extractLsb' 4 1)

/-- The immediate operations on a short register. -/
def fieldsCBI (funct2 : BitVec 2) (rd : RegC) (imm : BitVec 6) : BitVec 16 :=
  place 16 12 (imm.extractLsb' 5 1) ||| place 16 10 funct2 ||| place 16 7 rd |||
    place 16 2 (imm.extractLsb' 0 5)

def fieldsCA (funct1 : BitVec 1) (funct2 : BitVec 2) (rd rs2 : RegC) : BitVec 16 :=
  place 16 12 funct1 ||| place 16 10 (0b11#2) ||| place 16 7 rd ||| place 16 5 funct2 |||
    place 16 2 rs2

/-- The encoder. -/
def CInstr.encode : CInstr → BitVec 16
  | .addi4spn rd uimm => encodeC 0b000
      (place 16 11 (uimm.extractLsb' 2 2) ||| place 16 7 (uimm.extractLsb' 4 4) |||
        place 16 6 (uimm.extractLsb' 0 1) ||| place 16 5 (uimm.extractLsb' 1 1) |||
        place 16 2 rd) 0b00
  | .lw rd rs1 uimm => encodeC 0b010 (fieldsCLW rs1 uimm rd) 0b00
  | .ld rd rs1 uimm => encodeC 0b011 (fieldsCLD rs1 uimm rd) 0b00
  | .sw rs1 rs2 uimm => encodeC 0b110 (fieldsCLW rs1 uimm rs2) 0b00
  | .sd rs1 rs2 uimm => encodeC 0b111 (fieldsCLD rs1 uimm rs2) 0b00
  | .addi rd imm => encodeC 0b000 (fieldsCI rd imm) 0b01
  | .jal offset => encodeC 0b001 (fieldsCJ offset) 0b01
  | .addiw rd imm => encodeC 0b001 (fieldsCI rd imm) 0b01
  | .li rd imm => encodeC 0b010 (fieldsCI rd imm) 0b01
  | .addi16sp imm => encodeC 0b011
      (place 16 12 (imm.extractLsb' 5 1) ||| place 16 7 (2#5) |||
        place 16 6 (imm.extractLsb' 0 1) ||| place 16 5 (imm.extractLsb' 2 1) |||
        place 16 3 (imm.extractLsb' 3 2) ||| place 16 2 (imm.extractLsb' 1 1)) 0b01
  | .lui rd imm => encodeC 0b011 (fieldsCI rd imm) 0b01
  | .srli rd shamt => encodeC 0b100 (fieldsCBI 0b00 rd shamt) 0b01
  | .srai rd shamt => encodeC 0b100 (fieldsCBI 0b01 rd shamt) 0b01
  | .andi rd imm => encodeC 0b100 (fieldsCBI 0b10 rd imm) 0b01
  | .sub rd rs2 => encodeC 0b100 (fieldsCA 0 0b00 rd rs2) 0b01
  | .xor rd rs2 => encodeC 0b100 (fieldsCA 0 0b01 rd rs2) 0b01
  | .or rd rs2 => encodeC 0b100 (fieldsCA 0 0b10 rd rs2) 0b01
  | .and rd rs2 => encodeC 0b100 (fieldsCA 0 0b11 rd rs2) 0b01
  | .subw rd rs2 => encodeC 0b100 (fieldsCA 1 0b00 rd rs2) 0b01
  | .addw rd rs2 => encodeC 0b100 (fieldsCA 1 0b01 rd rs2) 0b01
  | .j offset => encodeC 0b101 (fieldsCJ offset) 0b01
  | .beqz rs1 offset => encodeC 0b110 (fieldsCB rs1 offset) 0b01
  | .bnez rs1 offset => encodeC 0b111 (fieldsCB rs1 offset) 0b01
  | .slli rd shamt => encodeC 0b000 (fieldsCI rd shamt) 0b10
  | .lwsp rd uimm => encodeC 0b010
      (place 16 12 (uimm.extractLsb' 3 1) ||| place 16 7 rd |||
        place 16 4 (uimm.extractLsb' 0 3) ||| place 16 2 (uimm.extractLsb' 4 2)) 0b10
  | .ldsp rd uimm => encodeC 0b011
      (place 16 12 (uimm.extractLsb' 2 1) ||| place 16 7 rd |||
        place 16 5 (uimm.extractLsb' 0 2) ||| place 16 2 (uimm.extractLsb' 3 3)) 0b10
  | .jr rs1 => encodeC 0b100 (fieldsCR 0 rs1 0) 0b10
  | .mv rd rs2 => encodeC 0b100 (fieldsCR 0 rd rs2) 0b10
  | .ebreak => encodeC 0b100 (fieldsCR 1 0 0) 0b10
  | .jalr rs1 => encodeC 0b100 (fieldsCR 1 rs1 0) 0b10
  | .add rd rs2 => encodeC 0b100 (fieldsCR 1 rd rs2) 0b10
  | .swsp rs2 uimm => encodeC 0b110
      (place 16 9 (uimm.extractLsb' 0 4) ||| place 16 7 (uimm.extractLsb' 4 2) |||
        place 16 2 rs2) 0b10
  | .sdsp rs2 uimm => encodeC 0b111
      (place 16 10 (uimm.extractLsb' 0 3) ||| place 16 7 (uimm.extractLsb' 3 3) |||
        place 16 2 rs2) 0b10

/-! ## Expansion -/

/-- The 32-bit instruction a compressed one stands for. -/
def CInstr.expand : CInstr → Instr
  | .addi4spn rd uimm => .opImm .addi rd.reg 2 (place 12 2 uimm)
  | .lw rd rs1 uimm => .load .lw rd.reg rs1.reg (place 12 2 uimm)
  | .ld rd rs1 uimm => .load .ld rd.reg rs1.reg (place 12 3 uimm)
  | .sw rs1 rs2 uimm => .store .sw rs1.reg rs2.reg (place 12 2 uimm)
  | .sd rs1 rs2 uimm => .store .sd rs1.reg rs2.reg (place 12 3 uimm)
  | .addi rd imm => .opImm .addi rd rd (imm.signExtend 12)
  | .jal offset => .jal 1 (offset.signExtend 20)
  | .addiw rd imm => .addiw rd rd (imm.signExtend 12)
  | .li rd imm => .opImm .addi rd 0 (imm.signExtend 12)
  | .addi16sp imm => .opImm .addi 2 2 ((place 10 4 imm).signExtend 12)
  | .lui rd imm => .lui rd (imm.signExtend 20)
  | .srli rd shamt => .shiftImm .srl rd.reg rd.reg shamt
  | .srai rd shamt => .shiftImm .sra rd.reg rd.reg shamt
  | .andi rd imm => .opImm .andi rd.reg rd.reg (imm.signExtend 12)
  | .sub rd rs2 => .op .sub rd.reg rd.reg rs2.reg
  | .xor rd rs2 => .op .xor rd.reg rd.reg rs2.reg
  | .or rd rs2 => .op .or rd.reg rd.reg rs2.reg
  | .and rd rs2 => .op .and rd.reg rd.reg rs2.reg
  | .subw rd rs2 => .opW .subw rd.reg rd.reg rs2.reg
  | .addw rd rs2 => .opW .addw rd.reg rd.reg rs2.reg
  | .j offset => .jal 0 (offset.signExtend 20)
  | .beqz rs1 offset => .branch .beq rs1.reg 0 (offset.signExtend 12)
  | .bnez rs1 offset => .branch .bne rs1.reg 0 (offset.signExtend 12)
  | .slli rd shamt => .shiftImm .sll rd rd shamt
  | .lwsp rd uimm => .load .lw rd 2 (place 12 2 uimm)
  | .ldsp rd uimm => .load .ld rd 2 (place 12 3 uimm)
  | .jr rs1 => .jalr 0 rs1 0
  | .mv rd rs2 => .op .add rd 0 rs2
  | .ebreak => .ebreak
  | .jalr rs1 => .jalr 1 rs1 0
  | .add rd rs2 => .op .add rd rd rs2
  | .swsp rs2 uimm => .store .sw 2 rs2 (place 12 2 uimm)
  | .sdsp rs2 uimm => .store .sd 2 rs2 (place 12 3 uimm)

/-- The expansion of a defined encoding is a defined instruction. -/
theorem CInstr.expand_defined {w : ℕ} {c : CInstr} (h : c.Defined w) : c.expand.Defined w := by
  cases c <;> simp_all [CInstr.Defined, CInstr.expand, Instr.Defined]

example : (CInstr.jr 1).encode = 0x8082 := by decide

example : (CInstr.addi16sp (-1)).encode = 0x717D := by decide

end Isa
