import RiscvTlm.BaseIsa

/-!
# The compressed extension

`C_extension<T>`: the accessors for the scattered immediates, the `exec` functions with the widths
of their local variables, the switch and the decoder. Several functions keep an address, a target
or a link value in a `std::uint32_t` for both widths.
-/

namespace RiscvTlm

/-- `op_C_Codes`. -/
inductive OpCCodes
  | OP_C_ADDI4SPN | OP_C_FLD | OP_C_LW | OP_C_FLW | OP_C_LD | OP_C_FSD | OP_C_SW | OP_C_FSW
  | OP_C_SD
  | OP_C_NOP | OP_C_ADDI | OP_C_JAL | OP_C_ADDIW | OP_C_LI | OP_C_ADDI16SP | OP_C_LUI
  | OP_C_SRLI | OP_C_SRAI | OP_C_ANDI | OP_C_SUB | OP_C_SUBW | OP_C_XOR | OP_C_ADDW | OP_C_OR
  | OP_C_AND | OP_C_J | OP_C_BEQZ | OP_C_BNEZ
  | OP_C_SLLI | OP_C_FLDSP | OP_C_LWSP | OP_C_FLWSP | OP_C_LDSP | OP_C_JR | OP_C_MV
  | OP_C_EBREAK | OP_C_JALR | OP_C_ADD | OP_C_FSDSP | OP_C_SWSP | OP_C_FSWSP | OP_C_SDSP
  | OP_C_ERROR
  deriving DecidableEq, Repr

namespace CCodes

@[match_pattern] abbrev C_ADDI4SPN : ℕ := 0b000
@[match_pattern] abbrev C_FLD : ℕ := 0b001
@[match_pattern] abbrev C_LW : ℕ := 0b010
@[match_pattern] abbrev C_FLW : ℕ := 0b011
@[match_pattern] abbrev C_FSD : ℕ := 0b101
@[match_pattern] abbrev C_SW : ℕ := 0b110
@[match_pattern] abbrev C_FSW : ℕ := 0b111

@[match_pattern] abbrev C_ADDI : ℕ := 0b000
@[match_pattern] abbrev C_JAL : ℕ := 0b001
@[match_pattern] abbrev C_LI : ℕ := 0b010
@[match_pattern] abbrev C_ADDI16SP : ℕ := 0b011
@[match_pattern] abbrev C_SRLI : ℕ := 0b100
@[match_pattern] abbrev C_2_SRLI : ℕ := 0b00
@[match_pattern] abbrev C_2_SRAI : ℕ := 0b01
@[match_pattern] abbrev C_2_ANDI : ℕ := 0b10
@[match_pattern] abbrev C_2_SUB : ℕ := 0b11
@[match_pattern] abbrev C_3_SUB : ℕ := 0b00
@[match_pattern] abbrev C_3_XOR : ℕ := 0b01
@[match_pattern] abbrev C_3_OR : ℕ := 0b10
@[match_pattern] abbrev C_3_AND : ℕ := 0b11
@[match_pattern] abbrev C_J : ℕ := 0b101
@[match_pattern] abbrev C_BEQZ : ℕ := 0b110
@[match_pattern] abbrev C_BNEZ : ℕ := 0b111

@[match_pattern] abbrev C_SLLI : ℕ := 0b000
@[match_pattern] abbrev C_FLDSP : ℕ := 0b001
@[match_pattern] abbrev C_LWSP : ℕ := 0b010
@[match_pattern] abbrev C_FLWSP : ℕ := 0b011
@[match_pattern] abbrev C_JR : ℕ := 0b100
@[match_pattern] abbrev C_FDSP : ℕ := 0b101
@[match_pattern] abbrev C_SWSP : ℕ := 0b110
@[match_pattern] abbrev C_FWWSP : ℕ := 0b111

end CCodes

namespace CExtension

open ExtensionBase (getRd)

variable {T : CpuType} (mInstr : BitVec 32)

/-! ## Fields and immediates -/

def opcode : ℕ := (range mInstr 1 0).toNat

def getRdp : ℕ := (range mInstr 4 2 + 8).toNat

def getRs1 : ℕ := (range mInstr 11 7).toNat

def getRs1p : ℕ := (range mInstr 9 7 + 8).toNat

def getRs2 : ℕ := (range mInstr 6 2).toNat

def getRs2p : ℕ := (range mInstr 4 2 + 8).toNat

def getFunct3 : ℕ := (range mInstr 15 13).toNat

/-- A field moved to its place in a 32-bit immediate. -/
def field (hi lo pos : ℕ) : BitVec 32 := (range mInstr hi lo <<< pos).setWidth 32

/-- The lines that fill the bits above an immediate whose sign is bit 12 of the instruction. -/
def extendSign (aux ones : BitVec 32) (pos : ℕ) : BitVec 32 :=
  if bit mInstr 12 = 1 then aux ||| ones <<< pos else aux

def getImmJ : BitVec 32 :=
  let aux := field mInstr 12 12 11
  let aux := aux ||| field mInstr 11 11 4
  let aux := aux ||| field mInstr 10 10 9
  let aux := aux ||| field mInstr 9 9 8
  let aux := aux ||| field mInstr 8 8 10
  let aux := aux ||| field mInstr 7 7 6
  let aux := aux ||| field mInstr 6 6 7
  let aux := aux ||| field mInstr 5 3 1
  let aux := aux ||| field mInstr 2 2 5
  extendSign mInstr aux 0b11111111111111111111 12

def getImmL : BitVec 32 :=
  let aux := field mInstr 12 10 3
  let aux := aux ||| field mInstr 6 6 2
  aux ||| field mInstr 5 5 6

def getImmLWSP : BitVec 32 :=
  let aux := field mInstr 12 12 5
  let aux := aux ||| field mInstr 6 4 2
  aux ||| field mInstr 3 2 6

def getImmLDSP : BitVec 32 :=
  let aux := field mInstr 12 12 5
  let aux := aux ||| field mInstr 6 5 3
  aux ||| field mInstr 4 2 6

def getImmADDI : BitVec 32 :=
  let aux := field mInstr 12 12 5
  let aux := aux ||| field mInstr 6 2 0
  extendSign mInstr aux 0b11111111111111111111111111 6

def getImmADDI4SPN : BitVec 32 :=
  let aux := field mInstr 12 11 4
  let aux := aux ||| field mInstr 10 7 6
  let aux := aux ||| field mInstr 6 6 2
  aux ||| field mInstr 5 5 3

def getImmADDI16SP : BitVec 32 :=
  let aux := field mInstr 12 12 9
  let aux := aux ||| field mInstr 6 6 4
  let aux := aux ||| field mInstr 5 5 6
  let aux := aux ||| field mInstr 4 4 8
  let aux := aux ||| field mInstr 3 3 7
  let aux := aux ||| field mInstr 2 2 5
  extendSign mInstr aux 0b1111111111111111111111 10

def getImmCSS : BitVec 32 :=
  let aux := field mInstr 12 9 2
  aux ||| field mInstr 8 7 6

def getImmCSDSP : BitVec 32 :=
  let aux := field mInstr 12 10 3
  aux ||| field mInstr 9 7 6

def getImmCB : BitVec 32 :=
  let aux := field mInstr 12 12 8
  let aux := aux ||| field mInstr 11 11 4
  let aux := aux ||| field mInstr 10 10 3
  let aux := aux ||| field mInstr 6 6 7
  let aux := aux ||| field mInstr 5 5 6
  let aux := aux ||| field mInstr 4 4 2
  let aux := aux ||| field mInstr 3 3 1
  let aux := aux ||| field mInstr 2 2 5
  extendSign mInstr aux 0b11111111111111111111111 9

def getImmCL : BitVec 32 :=
  let aux := field mInstr 12 10 3
  aux ||| field mInstr 6 5 6

def getImmLUI : BitVec 32 :=
  let aux := field mInstr 12 12 17
  let aux := aux ||| field mInstr 6 2 12
  extendSign mInstr aux 0b111111111111111 17

/-! ## The decoder -/

def decode (T : CpuType) : OpCCodes :=
  match opcode mInstr with
  | 0b00 =>
    match getFunct3 mInstr with
    | CCodes.C_ADDI4SPN => .OP_C_ADDI4SPN
    | CCodes.C_FLD => .OP_C_FLD
    | CCodes.C_LW => .OP_C_LW
    | CCodes.C_FLW => if T = .RV32 then .OP_C_FLW else .OP_C_LD
    | CCodes.C_FSD => .OP_C_FSD
    | CCodes.C_SW => .OP_C_SW
    | CCodes.C_FSW => if T = .RV32 then .OP_C_FSW else .OP_C_SD
    | _ => .OP_C_ERROR
  | 0b01 =>
    match getFunct3 mInstr with
    | CCodes.C_ADDI => .OP_C_ADDI
    | CCodes.C_JAL => if T = .RV32 then .OP_C_JAL else .OP_C_ADDIW
    | CCodes.C_LI => .OP_C_LI
    | CCodes.C_ADDI16SP => .OP_C_ADDI16SP
    | CCodes.C_SRLI =>
      match (range mInstr 11 10).toNat with
      | CCodes.C_2_SRLI => .OP_C_SRLI
      | CCodes.C_2_SRAI => .OP_C_SRAI
      | CCodes.C_2_ANDI => .OP_C_ANDI
      | CCodes.C_2_SUB =>
        match (range mInstr 6 5).toNat with
        | CCodes.C_3_SUB => if bit mInstr 12 = 0 then .OP_C_SUB else .OP_C_SUBW
        | CCodes.C_3_XOR => if bit mInstr 12 = 0 then .OP_C_XOR else .OP_C_ADDW
        | CCodes.C_3_OR => .OP_C_OR
        | CCodes.C_3_AND => .OP_C_AND
        | _ => .OP_C_ERROR
      | _ => .OP_C_ERROR
    | CCodes.C_J => .OP_C_J
    | CCodes.C_BEQZ => .OP_C_BEQZ
    | CCodes.C_BNEZ => .OP_C_BNEZ
    | _ => .OP_C_ERROR
  | 0b10 =>
    match getFunct3 mInstr with
    | CCodes.C_SLLI => .OP_C_SLLI
    | CCodes.C_FLDSP | CCodes.C_LWSP => .OP_C_LWSP
    | CCodes.C_FLWSP => if T = .RV32 then .OP_C_FLWSP else .OP_C_LDSP
    | CCodes.C_JR =>
      if bit mInstr 12 = 0 then
        if range mInstr 6 2 = 0 then .OP_C_JR else .OP_C_MV
      else if range mInstr 11 2 = 0 then .OP_C_EBREAK
      else if range mInstr 6 2 = 0 then .OP_C_JALR
      else .OP_C_ADD
    | CCodes.C_FDSP => .OP_C_ERROR
    | CCodes.C_SWSP => .OP_C_SWSP
    | CCodes.C_FWWSP => if T = .RV32 then .OP_C_FSWSP else .OP_C_SDSP
    | _ => .OP_C_ERROR
  | _ => .OP_C_ERROR

/-! ## Jumps and branches -/

def execJR : Sim T Bool := do
  let memAddr : BitVec 32 := 0
  let rs1 := getRs1 mInstr
  let newPc := ((← getValue rs1) + memAddr.setWidth T.xlen) &&& 0xFFFFFFFE#T.xlen
  setPC newPc
  return true

/-- The old PC, the target and the link value are `std::uint32_t`. -/
def execJAL (mRd : ℕ) : Sim T Bool := do
  let rd := mRd
  let memAddr := getImmJ mInstr
  let oldPc : BitVec 32 := (← getPC).setWidth 32
  let newPc := oldPc + memAddr
  setPC (newPc.setWidth T.xlen)
  let oldPc := oldPc + 2
  setValue rd (oldPc.setWidth T.xlen)
  return true

/-- The target and the link value are `std::uint32_t`. -/
def execJALR : Sim T Bool := do
  let memAddr : BitVec 32 := 0
  let rd := 1
  let rs1 := getRs1 mInstr
  let oldPc : BitVec 32 := (← getPC).setWidth 32
  let newPc : BitVec 32 :=
    (((← getValue rs1) + memAddr.setWidth T.xlen) &&& 0xFFFFFFFE#T.xlen).setWidth 32
  setValue rd ((oldPc + 2).setWidth T.xlen)
  setPC (newPc.setWidth T.xlen)
  return true

/-- The body of the two branches. -/
def execBranch (cond : BitVec T.xlen → Bool) : Sim T Bool := do
  let rs1 := getRs1p mInstr
  let val1 ← getValue rs1
  if cond val1 then
    let newPc := (← getPC) + (getImmCB mInstr).signExtend T.xlen
    setPC newPc
  else
    incPCby2
  return true

def execBEQZ : Sim T Bool := execBranch mInstr fun val1 => val1 == 0
def execBNEZ : Sim T Bool := execBranch mInstr fun val1 => val1 != 0

/-! ## Loads and stores -/

/-- The body of the word loads, whose address keeps its full width. -/
def execLoadWord (rd rs1 : ℕ) (imm : BitVec 32) : Sim T Bool := do
  let memAddr := imm.setWidth T.xlen + (← getValue rs1)
  let data := (← readDataMem (memAddr.setWidth 64) 4).signExtend T.xlen
  setValue rd data
  return true

/-- `C.LWSP` writes its register twice. -/
def execLWSP : Sim T Bool := do
  let rd := getRd mInstr
  let rs1 := 2
  let imm := getImmLWSP mInstr
  let memAddr := imm.setWidth T.xlen + (← getValue rs1)
  let data := (← readDataMem (memAddr.setWidth 64) 4).signExtend T.xlen
  setValue rd ((data.setWidth 32).signExtend T.xlen)
  setValue rd data
  return true

def execLW : Sim T Bool := execLoadWord (getRdp mInstr) (getRs1p mInstr) (getImmL mInstr)

/-- The body of the doubleword loads: two word accesses. -/
def execLoadDouble (rd rs1 : ℕ) (imm : BitVec 32) : Sim T Bool := do
  let memAddr := imm.setWidth T.xlen + (← getValue rs1)
  let data := (← readDataMem (memAddr.setWidth 64) 4).setWidth 64
  let aux := (← readDataMem ((memAddr + 4).setWidth 64) 4).setWidth 64
  let data := data ||| aux <<< 32
  setValue rd (data.setWidth T.xlen)
  return true

def execLD : Sim T Bool := execLoadDouble (getRdp mInstr) (getRs1p mInstr) (getImmCL mInstr)
def execLDSP : Sim T Bool := execLoadDouble (getRd mInstr) 2 (getImmLDSP mInstr)

/-- The body of the word stores: the address is a `std::uint32_t`. -/
def execStoreWord (rs1 rs2 : ℕ) (imm : BitVec 32) : Sim T Bool := do
  let memAddr : BitVec 32 := (imm.signExtend T.xlen + (← getValue rs1)).setWidth 32
  let data : BitVec 32 := (← getValue rs2).setWidth 32
  writeDataMem (memAddr.setWidth 64) data 4
  return true

def execSWSP : Sim T Bool := execStoreWord 2 (getRs2 mInstr) (getImmCSS mInstr)
def execSW : Sim T Bool := execStoreWord (getRs1p mInstr) (getRs2p mInstr) (getImmL mInstr)

/-- The body of the doubleword stores: two word accesses. -/
def execStoreDouble (rs1 rs2 : ℕ) (imm : BitVec 32) : Sim T Bool := do
  let memAddr := imm.setWidth T.xlen + (← getValue rs1)
  let data : BitVec 64 := (← getValue rs2).setWidth 64
  writeDataMem (memAddr.setWidth 64) ((data &&& 0xFFFFFFFF#64).setWidth 32) 4
  writeDataMem ((memAddr + 4).setWidth 64) ((data >>> 32).setWidth 32) 4
  return true

def execSDSP : Sim T Bool := execStoreDouble 2 (getRs2 mInstr) (getImmCSDSP mInstr)
def execSD : Sim T Bool := execStoreDouble (getRs1p mInstr) (getRs2p mInstr) (getImmCL mInstr)

/-- `Exec_C_FSW_SD`: the high word first, both at 32-bit addresses. -/
def execFSW_SD : Sim T Bool := do
  let rs1 := getRs1p mInstr
  let rs2 := getRs2p mInstr
  let imm := getImmL mInstr
  let memAddr : BitVec 32 := (imm.signExtend T.xlen + (← getValue rs1)).setWidth 32
  let data : BitVec 64 := (← getValue rs2).setWidth 64
  let aux : BitVec 32 := (data >>> 32).setWidth 32
  writeDataMem (memAddr.setWidth 64) aux 4
  let aux : BitVec 32 := (data &&& 0x00000000FFFFFFFF#64).setWidth 32
  writeDataMem ((memAddr + 4).setWidth 64) aux 4
  return true

/-! ## Operations on registers and immediates -/

/-- The body of the operations that combine a register with a widened immediate. -/
def execOpImm (rd rs1 : ℕ) (imm : BitVec T.xlen)
    (op : BitVec T.xlen → BitVec T.xlen → BitVec T.xlen) : Sim T Bool := do
  setValue rd (op (← getValue rs1) imm)
  return true

def execLI : Sim T Bool :=
  execOpImm (getRd mInstr) 0 ((getImmADDI mInstr).signExtend T.xlen) fun val1 imm => val1 + imm

def execADDI : Sim T Bool :=
  execOpImm (getRd mInstr) (getRd mInstr) ((getImmADDI mInstr).signExtend T.xlen)
    fun val1 imm => val1 + imm

def execANDI : Sim T Bool :=
  execOpImm (getRs1p mInstr) (getRs1p mInstr) ((getImmADDI mInstr).signExtend T.xlen)
    fun val1 imm => val1 &&& imm

/-- The intermediate values are `std::int32_t`. -/
def execADDIW : Sim T Bool := do
  let rd := getRd mInstr
  let rs1 := rd
  let imm := getImmADDI mInstr
  let aux : BitVec 32 := ((← getValue rs1) &&& 0xFFFFFFFF#T.xlen).setWidth 32
  let aux := aux + imm
  setValue rd (aux.signExtend T.xlen)
  return true

def execADDI4SPN : Sim T Bool := do
  let rd := getRdp mInstr
  let rs1 := 2
  let imm := (getImmADDI4SPN mInstr).setWidth T.xlen
  if imm = 0 then
    raiseException .ILLEGAL_INSTRUCTION mInstr
    return false
  setValue rd ((← getValue rs1) + imm)
  return true

/-- Also `C.LUI`, for every `rd` but 2. -/
def execADDI16SP : Sim T Bool := do
  if getRd mInstr = 2 then
    let imm := (getImmADDI16SP mInstr).signExtend T.xlen
    setValue 2 ((← getValue 2) + imm)
  else
    let rd := getRd mInstr
    let imm := (getImmLUI mInstr).signExtend T.xlen
    setValue rd imm
  return true

/-- The body of the shifts: the amount is the sign-extended immediate, as an unsigned number. -/
def execShiftImm (rd : ℕ) (op : BitVec T.xlen → ℕ → Sim T (BitVec T.xlen)) : Sim T Bool := do
  let shift := (getImmADDI mInstr).toNat
  setValue rd (← op (← getValue rd) shift)
  return true

def execSRLI : Sim T Bool := execShiftImm mInstr (getRs1p mInstr) ushr
def execSRAI : Sim T Bool := execShiftImm mInstr (getRs1p mInstr) sshr

/-- The amount is an `unsigned_T`. -/
def execSLLI : Sim T Bool := do
  let rd := getRs1 mInstr
  let rs1 := getRs1 mInstr
  let shift := (getImmADDI mInstr).signExtend T.xlen
  setValue rd (← shl (← getValue rs1) shift.toNat)
  return true

def execMV : Sim T Bool := do
  let rd := getRd mInstr
  let rs2 := getRs2 mInstr
  setValue rd (← getValue rs2)
  return true

/-- The body of the operations on two registers that replace the first. -/
def execOp (rd rs2 : ℕ) (op : BitVec T.xlen → BitVec T.xlen → BitVec T.xlen) : Sim T Bool := do
  setValue rd (op (← getValue rd) (← getValue rs2))
  return true

def execADD : Sim T Bool :=
  execOp (getRs1 mInstr) (getRs2 mInstr) fun val1 val2 => val1 + val2

def execSUB : Sim T Bool :=
  execOp (getRs1p mInstr) (getRs2p mInstr) fun val1 val2 => val1 - val2

def execXOR : Sim T Bool :=
  execOp (getRs1p mInstr) (getRs2p mInstr) fun val1 val2 => val1 ^^^ val2

def execOR : Sim T Bool :=
  execOp (getRs1p mInstr) (getRs2p mInstr) fun val1 val2 => val1 ||| val2

def execAND : Sim T Bool :=
  execOp (getRs1p mInstr) (getRs2p mInstr) fun val1 val2 => val1 &&& val2

def execSUBW : Sim T Bool :=
  execOp (getRs1p mInstr) (getRs2p mInstr) fun val1 val2 =>
    (((val1 - val2) &&& 0xFFFFFFFF#T.xlen).setWidth 32).signExtend T.xlen

def execADDW : Sim T Bool :=
  execOp (getRs1p mInstr) (getRs2p mInstr) fun val1 val2 =>
    (((val1 + val2) &&& 0xFFFFFFFF#T.xlen).setWidth 32).signExtend T.xlen

def execEBREAK : Sim T Bool := do
  raiseException .BREAK mInstr
  return false

/-! ## The switch -/

/-- `exec_instruction`: `PC_not_affected` and the breakpoint flag. -/
def execInstruction (code : OpCCodes) : Sim T (Bool × Bool) :=
  match code with
  | .OP_C_ADDI4SPN => pcForward (execADDI4SPN mInstr)
  | .OP_C_LW => pcNext (execLW mInstr)
  | .OP_C_SW => pcNext (execSW mInstr)
  | .OP_C_ADDI => pcNext (execADDI mInstr)
  | .OP_C_JAL => pcSet (execJAL mInstr 1)
  | .OP_C_J => pcSet (execJAL mInstr 0)
  | .OP_C_LI => pcNext (execLI mInstr)
  | .OP_C_SLLI => pcNext (execSLLI mInstr)
  | .OP_C_LWSP => pcNext (execLWSP mInstr)
  | .OP_C_JR => pcSet (execJR mInstr)
  | .OP_C_MV => pcNext (execMV mInstr)
  | .OP_C_JALR => pcSet (execJALR mInstr)
  | .OP_C_ADD => pcNext (execADD mInstr)
  | .OP_C_SWSP => pcNext (execSWSP mInstr)
  | .OP_C_ADDI16SP => pcNext (execADDI16SP mInstr)
  | .OP_C_BEQZ => pcSet (execBEQZ mInstr)
  | .OP_C_BNEZ => pcSet (execBNEZ mInstr)
  | .OP_C_SRLI => pcNext (execSRLI mInstr)
  | .OP_C_SRAI => pcNext (execSRAI mInstr)
  | .OP_C_ANDI => pcNext (execANDI mInstr)
  | .OP_C_SUB => pcNext (execSUB mInstr)
  | .OP_C_XOR => pcNext (execXOR mInstr)
  | .OP_C_OR => pcNext (execOR mInstr)
  | .OP_C_AND => pcNext (execAND mInstr)
  | .OP_C_FSW => pcNext (execFSW_SD mInstr)
  | .OP_C_FLWSP => return (true, false)
  | .OP_C_EBREAK => do
    let _ ← execEBREAK mInstr
    return (false, true)
  | .OP_C_LD => pcNext (execLD mInstr)
  | .OP_C_SD => pcNext (execSD mInstr)
  | .OP_C_ADDIW => pcNext (execADDIW mInstr)
  | .OP_C_ADDW => pcNext (execADDW mInstr)
  | .OP_C_SUBW => pcNext (execSUBW mInstr)
  | .OP_C_SDSP => pcNext (execSDSP mInstr)
  | .OP_C_LDSP => pcNext (execLDSP mInstr)
  | .OP_C_FLD | .OP_C_FLW | .OP_C_FSD | .OP_C_NOP | .OP_C_LUI | .OP_C_FLDSP | .OP_C_FSDSP
  | .OP_C_FSWSP | .OP_C_ERROR => pcNext NOP

end CExtension

end RiscvTlm
