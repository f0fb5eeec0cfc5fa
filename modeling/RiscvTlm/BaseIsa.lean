import RiscvTlm.System

/-!
# The base instruction set

`BASE_ISA<T>`: the field and immediate accessors, one `exec` function for each operation, the
switch `execInstruction` that runs the function of an operation code, and `decode`. Functions that
the source writes out several times with a different operator share one body, applied under each
function's own name.
-/

namespace RiscvTlm

/-- `opCodes`. -/
inductive OpCodes
  | OP_LUI | OP_AUIPC | OP_JAL | OP_JALR
  | OP_BEQ | OP_BNE | OP_BLT | OP_BGE | OP_BLTU | OP_BGEU
  | OP_LB | OP_LH | OP_LW | OP_LBU | OP_LHU
  | OP_SB | OP_SH | OP_SW
  | OP_ADDI | OP_SLTI | OP_SLTIU | OP_XORI | OP_ORI | OP_ANDI | OP_SLLI | OP_SRLI | OP_SRAI
  | OP_ADD | OP_SUB | OP_SLL | OP_SLT | OP_SLTU | OP_XOR | OP_SRL | OP_SRA | OP_OR | OP_AND
  | OP_FENCE | OP_ECALL | OP_EBREAK
  | OP_CSRRW | OP_CSRRS | OP_CSRRC | OP_CSRRWI | OP_CSRRSI | OP_CSRRCI
  | OP_URET | OP_SRET | OP_MRET | OP_WFI | OP_SFENCE
  | OP_LWU | OP_LD | OP_SD
  | OP_ADDIW | OP_SLLIW | OP_SRLIW | OP_SRAIW
  | OP_ADDW | OP_SUBW | OP_SLLW | OP_SRLW | OP_SRAW
  | OP_ERROR
  deriving DecidableEq, Repr

namespace Codes

@[match_pattern] abbrev LUI : ℕ := 0b0110111
@[match_pattern] abbrev AUIPC : ℕ := 0b0010111
@[match_pattern] abbrev JAL : ℕ := 0b1101111
@[match_pattern] abbrev JALR : ℕ := 0b1100111

@[match_pattern] abbrev BEQ : ℕ := 0b1100011
@[match_pattern] abbrev BEQ_F : ℕ := 0b000
@[match_pattern] abbrev BNE_F : ℕ := 0b001
@[match_pattern] abbrev BLT_F : ℕ := 0b100
@[match_pattern] abbrev BGE_F : ℕ := 0b101
@[match_pattern] abbrev BLTU_F : ℕ := 0b110
@[match_pattern] abbrev BGEU_F : ℕ := 0b111

@[match_pattern] abbrev LB : ℕ := 0b0000011
@[match_pattern] abbrev LB_F : ℕ := 0b000
@[match_pattern] abbrev LH_F : ℕ := 0b001
@[match_pattern] abbrev LW_F : ℕ := 0b010
@[match_pattern] abbrev LBU_F : ℕ := 0b100
@[match_pattern] abbrev LHU_F : ℕ := 0b101
@[match_pattern] abbrev LWU_F : ℕ := 0b110
@[match_pattern] abbrev LD_F : ℕ := 0b011

@[match_pattern] abbrev SB : ℕ := 0b0100011
@[match_pattern] abbrev SB_F : ℕ := 0b000
@[match_pattern] abbrev SH_F : ℕ := 0b001
@[match_pattern] abbrev SW_F : ℕ := 0b010
@[match_pattern] abbrev SD_F : ℕ := 0b011

@[match_pattern] abbrev ADDI : ℕ := 0b0010011
@[match_pattern] abbrev ADDI_F : ℕ := 0b000
@[match_pattern] abbrev SLTI_F : ℕ := 0b010
@[match_pattern] abbrev SLTIU_F : ℕ := 0b011
@[match_pattern] abbrev XORI_F : ℕ := 0b100
@[match_pattern] abbrev ORI_F : ℕ := 0b110
@[match_pattern] abbrev ANDI_F : ℕ := 0b111
@[match_pattern] abbrev SLLI_F : ℕ := 0b001
@[match_pattern] abbrev SRLI_F : ℕ := 0b101
@[match_pattern] abbrev SRLI_F7 : ℕ := 0b000000
@[match_pattern] abbrev SRAI_F7 : ℕ := 0b010000

@[match_pattern] abbrev ADD : ℕ := 0b0110011
@[match_pattern] abbrev ADD_F : ℕ := 0b000
@[match_pattern] abbrev ADD_F7 : ℕ := 0b0000000
@[match_pattern] abbrev SUB_F7 : ℕ := 0b0100000
@[match_pattern] abbrev SLL_F : ℕ := 0b001
@[match_pattern] abbrev SLT_F : ℕ := 0b010
@[match_pattern] abbrev SLTU_F : ℕ := 0b011
@[match_pattern] abbrev XOR_F : ℕ := 0b100
@[match_pattern] abbrev SRL_F : ℕ := 0b101
@[match_pattern] abbrev SRL_F7 : ℕ := 0b0000000
@[match_pattern] abbrev SRA_F7 : ℕ := 0b0100000
@[match_pattern] abbrev OR_F : ℕ := 0b110
@[match_pattern] abbrev AND_F : ℕ := 0b111

@[match_pattern] abbrev FENCE : ℕ := 0b0001111
@[match_pattern] abbrev ECALL : ℕ := 0b1110011
@[match_pattern] abbrev ECALL_F : ℕ := 0b000000000000
@[match_pattern] abbrev EBREAK_F : ℕ := 0b000000000001
@[match_pattern] abbrev URET_F : ℕ := 0b000000000010
@[match_pattern] abbrev SRET_F : ℕ := 0b000100000010
@[match_pattern] abbrev MRET_F : ℕ := 0b001100000010
@[match_pattern] abbrev WFI_F : ℕ := 0b000100000101
@[match_pattern] abbrev SFENCE_F : ℕ := 0b0001001

@[match_pattern] abbrev ECALL_F3 : ℕ := 0b000
@[match_pattern] abbrev CSRRW : ℕ := 0b001
@[match_pattern] abbrev CSRRS : ℕ := 0b010
@[match_pattern] abbrev CSRRC : ℕ := 0b011
@[match_pattern] abbrev CSRRWI : ℕ := 0b101
@[match_pattern] abbrev CSRRSI : ℕ := 0b110
@[match_pattern] abbrev CSRRCI : ℕ := 0b111

@[match_pattern] abbrev ADDIW : ℕ := 0b0011011
@[match_pattern] abbrev ADDIW_F : ℕ := 0b000
@[match_pattern] abbrev SLLIW_F : ℕ := 0b001
@[match_pattern] abbrev SRLIW_F : ℕ := 0b101
@[match_pattern] abbrev SRLIW_F7 : ℕ := 0b000000
@[match_pattern] abbrev SRAIW_F7 : ℕ := 0b010000
@[match_pattern] abbrev ADDW : ℕ := 0b0111011
@[match_pattern] abbrev ADDW_F : ℕ := 0b000
@[match_pattern] abbrev ADDW_F7 : ℕ := 0b000000
@[match_pattern] abbrev SUBW_F7 : ℕ := 0b010000
@[match_pattern] abbrev SLLW : ℕ := 0b001
@[match_pattern] abbrev SRLW : ℕ := 0b101
@[match_pattern] abbrev SRLW_F7 : ℕ := 0b000000
@[match_pattern] abbrev SRAW_F7 : ℕ := 0b010000

end Codes

/-! ## Results of a switch case -/

section Cases

variable {T : CpuType}

/-- A case that leaves `PC_not_affected` true; the second component is `*breakpoint`. -/
def pcNext (exec : Sim T Bool) : Sim T (Bool × Bool) := do
  let _ ← exec
  return (true, false)

/-- A case that sets `PC_not_affected` to false. -/
def pcSet (exec : Sim T Bool) : Sim T (Bool × Bool) := do
  let _ ← exec
  return (false, false)

/-- A case that sets `PC_not_affected` to what the function returns. -/
def pcForward (exec : Sim T Bool) : Sim T (Bool × Bool) := do
  let r ← exec
  return (r, false)

end Cases

namespace BaseIsa

open ExtensionBase

variable {T : CpuType} (mInstr : BitVec 32)

/-! ## Fields and immediates -/

def opcode : ℕ := (range mInstr 6 0).toNat

def getFunct7 : ℕ := (range mInstr 31 25).toNat

def getShamt : ℕ := (range mInstr 25 20).toNat

def getCsr : ℕ := (range mInstr 31 20).toNat

def getImmU (T : CpuType) : BitVec T.xlen := (range mInstr 31 12).setWidth T.xlen

/-- A shifted literal is an `int`, so its conversion to the wider type extends the sign. -/
def signMask (T : CpuType) (ones : BitVec 32) (pos : ℕ) : BitVec T.xlen :=
  (ones <<< pos).signExtend T.xlen

/-- The two lines that fill the bits above a 12-bit immediate. -/
def extend12 : (T : CpuType) → BitVec T.xlen → BitVec T.xlen
  | .RV32, aux => if bit mInstr 31 = 1 then aux ||| signMask .RV32 0xFFFFF 12 else aux
  | .RV64, aux =>
    if bit mInstr 31 = 1 then aux ||| signMask .RV64 0xFFFFF 12 ||| 0xFFFFFFFF#64 <<< 32 else aux

def getImmI (T : CpuType) : BitVec T.xlen :=
  let aux := (range mInstr 31 20).setWidth T.xlen
  extend12 mInstr T aux

def getImmS (T : CpuType) : BitVec T.xlen :=
  let aux := (range mInstr 31 25 <<< 5).setWidth T.xlen
  let aux := aux ||| (range mInstr 11 7).setWidth T.xlen
  extend12 mInstr T aux

def getImmB (T : CpuType) : BitVec T.xlen :=
  let aux := (bit mInstr 7 <<< 11).setWidth T.xlen
  let aux := aux ||| (range mInstr 30 25 <<< 5).setWidth T.xlen
  let aux := aux ||| (bit mInstr 31 <<< 12).setWidth T.xlen
  let aux := aux ||| (range mInstr 11 8 <<< 1).setWidth T.xlen
  extend12 mInstr T aux

def getImmJ (T : CpuType) : BitVec T.xlen :=
  let aux := (bit mInstr 31 <<< 20).setWidth T.xlen
  let aux := aux ||| (range mInstr 19 12 <<< 12).setWidth T.xlen
  let aux := aux ||| (bit mInstr 20 <<< 11).setWidth T.xlen
  let aux := aux ||| (range mInstr 30 21 <<< 1).setWidth T.xlen
  if bit mInstr 31 = 1 then aux ||| signMask T 0xFFF 20 else aux

/-! ## Upper immediates and jumps -/

/-- `static_cast<std::int32_t>(get_imm_U() << 12)`, widened. -/
def upperImm (T : CpuType) : BitVec T.xlen :=
  ((getImmU mInstr T <<< 12).setWidth 32).signExtend T.xlen

def execLUI : Sim T Bool := do
  let rd := getRd mInstr
  let imm := upperImm mInstr T
  setValue rd imm
  return true

def execAUIPC : Sim T Bool := do
  let rd := getRd mInstr
  let imm := upperImm mInstr T
  let newPc := (← getPC) + imm
  setValue rd newPc
  return true

def execJAL : Sim T Bool := do
  let rd := getRd mInstr
  let memAddr := getImmJ mInstr T
  let oldPc ← getPC
  let newPc := oldPc + memAddr
  setPC newPc
  let oldPc := oldPc + 4
  setValue rd oldPc
  return true

def execJALR : Sim T Bool := do
  let rd := getRd mInstr
  let rs1 := getRs1 mInstr
  let offset := getImmI mInstr T
  let oldPc ← getPC
  let newPc := ((← getValue rs1) + offset) &&& ~~~1#T.xlen
  setValue rd (oldPc + 4)
  setPC newPc
  return true

/-! ## Branches -/

/-- The body of the branches. -/
def execBranch (cond : BitVec T.xlen → BitVec T.xlen → Bool) : Sim T Bool := do
  let rs1 := getRs1 mInstr
  let rs2 := getRs2 mInstr
  let val1 ← getValue rs1
  let val2 ← getValue rs2
  if cond val1 val2 then
    let newPc := (← getPC) + getImmB mInstr T
    setPC newPc
  else
    incPC
  return true

def execBEQ : Sim T Bool := execBranch mInstr fun val1 val2 => val1 == val2
def execBNE : Sim T Bool := execBranch mInstr fun val1 val2 => val1 != val2
def execBLT : Sim T Bool := execBranch mInstr fun val1 val2 => val1.slt val2
def execBGE : Sim T Bool := execBranch mInstr fun val1 val2 => val2.sle val1
def execBLTU : Sim T Bool := execBranch mInstr fun val1 val2 => val1.ult val2
def execBGEU : Sim T Bool := execBranch mInstr fun val1 val2 => val2.ule val1

/-! ## Loads and stores -/

/-- The body of the loads of at most four bytes; `data` is the conversion to the register. -/
def execLoad (size : ℕ) (data : BitVec 32 → BitVec T.xlen) : Sim T Bool := do
  let rd := getRd mInstr
  let rs1 := getRs1 mInstr
  let imm := getImmI mInstr T
  let memAddr := imm + (← getValue rs1)
  let word ← readDataMem (memAddr.setWidth 64) size
  setValue rd (data word)
  return true

def execLB : Sim T Bool := execLoad mInstr 1 fun word => (word.setWidth 8).signExtend T.xlen
def execLH : Sim T Bool := execLoad mInstr 2 fun word => (word.setWidth 16).signExtend T.xlen
def execLW : Sim T Bool := execLoad mInstr 4 fun word => word.signExtend T.xlen
def execLBU : Sim T Bool := execLoad mInstr 1 fun word => (word.setWidth 8).setWidth T.xlen
def execLHU : Sim T Bool := execLoad mInstr 2 fun word => (word.setWidth 16).setWidth T.xlen
def execLWU : Sim T Bool := execLoad mInstr 4 fun word => word.setWidth T.xlen

def execLD : Sim T Bool := do
  let rd := getRd mInstr
  let rs1 := getRs1 mInstr
  let imm := getImmI mInstr T
  let offset ← getValue rs1
  let memAddr := imm + offset
  let data := (← readDataMem (memAddr.setWidth 64) 4).setWidth 64
  let aux := (← readDataMem ((memAddr + 4).setWidth 64) 4).setWidth 64
  let data := data ||| aux <<< 32
  setValue rd (data.setWidth T.xlen)
  return true

def execSD : Sim T Bool := do
  let rs1 := getRs1 mInstr
  let rs2 := getRs2 mInstr
  let imm := getImmS mInstr T
  let memAddr := imm + (← getValue rs1)
  let data : BitVec 64 := (← getValue rs2).setWidth 64
  writeDataMem (memAddr.setWidth 64) ((data &&& 0xFFFFFFFF#64).setWidth 32) 4
  writeDataMem ((memAddr + 4).setWidth 64) ((data >>> 32).setWidth 32) 4
  return true

/-- The body of the stores of at most four bytes. -/
def execStore (size : ℕ) : Sim T Bool := do
  let rs1 := getRs1 mInstr
  let rs2 := getRs2 mInstr
  let imm := getImmS mInstr T
  let memAddr := imm + (← getValue rs1)
  let data : BitVec 32 := (← getValue rs2).setWidth 32
  writeDataMem (memAddr.setWidth 64) data size
  return true

def execSB : Sim T Bool := execStore mInstr 1
def execSH : Sim T Bool := execStore mInstr 2
def execSW : Sim T Bool := execStore mInstr 4

/-! ## Register-immediate operations -/

/-- The body of the operations on a register and an immediate. -/
def execOpImm (op : BitVec T.xlen → BitVec T.xlen → BitVec T.xlen) : Sim T Bool := do
  let rd := getRd mInstr
  let rs1 := getRs1 mInstr
  let imm := getImmI mInstr T
  setValue rd (op (← getValue rs1) imm)
  return true

def execADDI : Sim T Bool := execOpImm mInstr fun val1 imm => val1 + imm
def execSLTI : Sim T Bool := execOpImm mInstr fun val1 imm => if val1.slt imm then 1 else 0
def execSLTIU : Sim T Bool := execOpImm mInstr fun val1 imm => if val1.ult imm then 1 else 0
def execXORI : Sim T Bool := execOpImm mInstr fun val1 imm => val1 ^^^ imm
def execORI : Sim T Bool := execOpImm mInstr fun val1 imm => val1 ||| imm
def execANDI : Sim T Bool := execOpImm mInstr fun val1 imm => val1 &&& imm

/-- The intermediate values are `std::int32_t`. -/
def execADDIW : Sim T Bool := execOpImm mInstr fun val1 imm =>
  let imm : BitVec 32 := imm.setWidth 32
  let aux : BitVec 32 := (val1 &&& 0xFFFFFFFF#T.xlen).setWidth 32
  (aux + imm).signExtend T.xlen

/-- The body of the shifts by an immediate that has been checked or masked. -/
def execShiftImm (shift : ℕ) (op : BitVec T.xlen → ℕ → Sim T (BitVec T.xlen)) : Sim T Bool := do
  let rd := getRd mInstr
  let rs1 := getRs1 mInstr
  setValue rd (← op (← getValue rs1) shift)
  return true

/-- The body of the shifts that refuse an amount past `limit`. -/
def execShiftImmChecked (rs2 limit mask : ℕ)
    (op : BitVec T.xlen → ℕ → Sim T (BitVec T.xlen)) : Sim T Bool := do
  if rs2 ≥ limit then
    scStop
    raiseException .ILLEGAL_INSTRUCTION mInstr
    return false
  execShiftImm mInstr (rs2 &&& mask) op

/-- Specialised: the checked amount is below 32 or below 64. -/
def execSLLI : (T : CpuType) → Sim T Bool
  | .RV32 => execShiftImmChecked mInstr (getShamt mInstr) 0x20 0x1F shl
  | .RV64 => execShiftImmChecked mInstr (getShamtSlli mInstr) 0x40 0x3F shl

def execSRLI : (T : CpuType) → Sim T Bool
  | .RV32 => execShiftImm mInstr (getRs2 mInstr &&& 0x1F) ushr
  | .RV64 => execShiftImm mInstr (getShamtSlli mInstr &&& 0x3F) ushr

def execSRAI : (T : CpuType) → Sim T Bool
  | .RV32 => execShiftImm mInstr (getRs2 mInstr &&& 0x1F) sshr
  | .RV64 => execShiftImm mInstr (getShamtSlli mInstr &&& 0x3F) sshr

/-- A 32-bit shift of the low word, its result extended with the sign. -/
def shiftWord (shift : BitVec 32 → ℕ → Sim T (BitVec 32)) (val1 : BitVec T.xlen) (count : ℕ) :
    Sim T (BitVec T.xlen) := do
  return (← shift (val1.setWidth 32) count).signExtend T.xlen

def execSLLIW : Sim T Bool :=
  execShiftImmChecked mInstr (getShamt mInstr) 0x20 0x1F (shiftWord shl)

def execSRLIW : Sim T Bool :=
  execShiftImmChecked mInstr (getShamt mInstr) 0x20 0x1F
    (fun val1 => shiftWord ushr (val1 &&& 0xFFFFFFFF#T.xlen))

def execSRAIW : Sim T Bool :=
  execShiftImm mInstr (getShamtSlli mInstr &&& 0x1F) (shiftWord sshr)

/-! ## Register-register operations -/

/-- The body of the operations on two registers. -/
def execOp (op : BitVec T.xlen → BitVec T.xlen → BitVec T.xlen) : Sim T Bool := do
  let rd := getRd mInstr
  let rs1 := getRs1 mInstr
  let rs2 := getRs2 mInstr
  setValue rd (op (← getValue rs1) (← getValue rs2))
  return true

def execADD : Sim T Bool := execOp mInstr fun val1 val2 => val1 + val2
def execSUB : Sim T Bool := execOp mInstr fun val1 val2 => val1 - val2
def execSLT : Sim T Bool := execOp mInstr fun val1 val2 => if val1.slt val2 then 1 else 0
def execSLTU : Sim T Bool := execOp mInstr fun val1 val2 => if val1.ult val2 then 1 else 0
def execXOR : Sim T Bool := execOp mInstr fun val1 val2 => val1 ^^^ val2
def execOR : Sim T Bool := execOp mInstr fun val1 val2 => val1 ||| val2
def execAND : Sim T Bool := execOp mInstr fun val1 val2 => val1 &&& val2

def execADDW : Sim T Bool := execOp mInstr fun val1 val2 =>
  (((val1 + val2) &&& 0xFFFFFFFF#T.xlen).setWidth 32).signExtend T.xlen

def execSUBW : Sim T Bool := execOp mInstr fun val1 val2 =>
  (((val1 - val2) &&& 0xFFFFFFFF#T.xlen).setWidth 32).signExtend T.xlen

/-- The body of the shifts by a register. -/
def execShift (mask : BitVec T.xlen) (op : BitVec T.xlen → ℕ → Sim T (BitVec T.xlen)) :
    Sim T Bool := do
  let rd := getRd mInstr
  let rs1 := getRs1 mInstr
  let rs2 := getRs2 mInstr
  let shift := (← getValue rs2) &&& mask
  setValue rd (← op (← getValue rs1) shift.toNat)
  return true

def execSLL : (T : CpuType) → Sim T Bool
  | .RV32 => execShift mInstr 0x1F#32 shl
  | .RV64 => execShift mInstr 0x3F#64 shl

def execSRL : (T : CpuType) → Sim T Bool
  | .RV32 => execShift mInstr 0x1F#32 ushr
  | .RV64 => execShift mInstr 0x3F#64 ushr

def execSRA : (T : CpuType) → Sim T Bool
  | .RV32 => execShift mInstr 0x1F#32 sshr
  | .RV64 => execShift mInstr 0x3F#64 sshr

def execSLLW : Sim T Bool :=
  execShift mInstr 0x1F#T.xlen (fun val1 => shiftWord shl (val1 &&& 0xFFFFFFFF#T.xlen))

def execSRLW : Sim T Bool :=
  execShift mInstr 0x1F#T.xlen (fun val1 => shiftWord ushr (val1 &&& 0xFFFFFFFF#T.xlen))

def execSRAW : Sim T Bool :=
  execShift mInstr 0x1F#T.xlen (fun val1 => shiftWord sshr (val1 &&& 0xFFFFFFFF#T.xlen))

/-! ## FENCE, ECALL, EBREAK -/

/-- Looks at the next word, at a 32-bit address: an `ECALL` there stops the simulation. -/
def execFENCE : Sim T Bool := do
  let antPc : BitVec 32 := (← getPC).setWidth 32
  let antPc := antPc + 4
  let antInst ← readDataMem (antPc.setWidth 64) 4
  if antInst = 0x00000073 then
    scStop
  return true

def execECALL : Sim T Bool := do
  raiseException .CALL_FROM_M_MODE mInstr
  return false

def execEBREAK : Sim T Bool := do
  raiseException .BREAK mInstr
  return false

/-! ## CSR instructions -/

def execCSRRW : Sim T Bool := do
  let rd := getRd mInstr
  let rs1 := getRs1 mInstr
  let csr := getCsr mInstr
  let aux ← getCSR csr
  let aux2 ← getValue rs1
  if rd ≠ 0 then
    setValue rd aux
  setCSR csr aux2
  return true

def execCSRRS : Sim T Bool := do
  let rd := getRd mInstr
  let rs1 := getRs1 mInstr
  let csr := getCsr mInstr
  if rd = 0 then
    return false
  let aux ← getCSR csr
  let bitmask ← getValue rs1
  setValue rd aux
  let aux2 := aux ||| bitmask
  setCSR csr aux2
  return true

def execCSRRC : Sim T Bool := do
  let rd := getRd mInstr
  let rs1 := getRs1 mInstr
  let csr := getCsr mInstr
  if rd = 0 then
    return true
  let aux ← getCSR csr
  let bitmask ← getValue rs1
  setValue rd aux
  let aux2 := aux &&& ~~~bitmask
  setCSR csr aux2
  return true

def execCSRRWI : Sim T Bool := do
  let rd := getRd mInstr
  let rs1 := getRs1 mInstr
  let csr := getCsr mInstr
  if rd ≠ 0 then
    let aux ← getCSR csr
    setValue rd aux
  setCSR csr (BitVec.ofNat T.xlen rs1)
  return true

/-- The body of `CSRRSI` and `CSRRCI`. -/
def execCSRRxI (op : BitVec T.xlen → BitVec T.xlen → BitVec T.xlen) : Sim T Bool := do
  let rd := getRd mInstr
  let rs1 := getRs1 mInstr
  let csr := getCsr mInstr
  if rs1 = 0 then
    return true
  let aux ← getCSR csr
  setValue rd aux
  let bitmask := BitVec.ofNat T.xlen rs1
  setCSR csr (op aux bitmask)
  return true

def execCSRRSI : Sim T Bool := execCSRRxI mInstr fun aux bitmask => aux ||| bitmask
def execCSRRCI : Sim T Bool := execCSRRxI mInstr fun aux bitmask => aux &&& ~~~bitmask

/-! ## Privileged instructions -/

/-- The PC comes from `mepc`; `MIE` is set when `MPIE` is, and never cleared. -/
def execMRET : Sim T Bool := do
  let newPc ← getCSR Csr.MEPC
  setPC newPc
  let csrTemp ← getCSR Csr.MSTATUS
  let csrTemp := if csrTemp &&& MSTATUS_MPIE T.xlen ≠ 0 then csrTemp ||| MSTATUS_MIE T.xlen
    else csrTemp
  let csrTemp := csrTemp ||| MSTATUS_MPIE T.xlen
  setCSR Csr.MSTATUS csrTemp
  return true

def execSRET : Sim T Bool := do
  let newPc ← getCSR Csr.SEPC
  setPC newPc
  return true

def execWFI : Sim T Bool := return true

def execSFENCE : Sim T Bool := return true

/-! ## The switch and the decoder -/

/-- `exec_instruction`: `PC_not_affected` and the breakpoint flag. `SLLIW` and `SRLIW` do not
forward what their function returns. -/
def execInstruction (code : OpCodes) : Sim T (Bool × Bool) :=
  match code with
  | .OP_LUI => pcNext (execLUI mInstr)
  | .OP_AUIPC => pcNext (execAUIPC mInstr)
  | .OP_JAL => pcSet (execJAL mInstr)
  | .OP_JALR => pcSet (execJALR mInstr)
  | .OP_BEQ => pcSet (execBEQ mInstr)
  | .OP_BNE => pcSet (execBNE mInstr)
  | .OP_BLT => pcSet (execBLT mInstr)
  | .OP_BGE => pcSet (execBGE mInstr)
  | .OP_BLTU => pcSet (execBLTU mInstr)
  | .OP_BGEU => pcSet (execBGEU mInstr)
  | .OP_LB => pcNext (execLB mInstr)
  | .OP_LH => pcNext (execLH mInstr)
  | .OP_LW => pcNext (execLW mInstr)
  | .OP_LBU => pcNext (execLBU mInstr)
  | .OP_LHU => pcNext (execLHU mInstr)
  | .OP_LWU => pcNext (execLWU mInstr)
  | .OP_LD => pcNext (execLD mInstr)
  | .OP_SB => pcNext (execSB mInstr)
  | .OP_SH => pcNext (execSH mInstr)
  | .OP_SW => pcNext (execSW mInstr)
  | .OP_SD => pcNext (execSD mInstr)
  | .OP_ADDI => pcNext (execADDI mInstr)
  | .OP_SLTI => pcNext (execSLTI mInstr)
  | .OP_SLTIU => pcNext (execSLTIU mInstr)
  | .OP_XORI => pcNext (execXORI mInstr)
  | .OP_ORI => pcNext (execORI mInstr)
  | .OP_ANDI => pcNext (execANDI mInstr)
  | .OP_SLLI => pcForward (execSLLI mInstr T)
  | .OP_SRLI => pcNext (execSRLI mInstr T)
  | .OP_SRAI => pcNext (execSRAI mInstr T)
  | .OP_ADD => pcNext (execADD mInstr)
  | .OP_SUB => pcNext (execSUB mInstr)
  | .OP_SLL => pcNext (execSLL mInstr T)
  | .OP_SLT => pcNext (execSLT mInstr)
  | .OP_SLTU => pcNext (execSLTU mInstr)
  | .OP_XOR => pcNext (execXOR mInstr)
  | .OP_SRL => pcNext (execSRL mInstr T)
  | .OP_SRA => pcNext (execSRA mInstr T)
  | .OP_OR => pcNext (execOR mInstr)
  | .OP_AND => pcNext (execAND mInstr)
  | .OP_FENCE => pcNext execFENCE
  | .OP_ECALL => do
    let r ← execECALL mInstr
    return (r, true)
  | .OP_EBREAK => pcForward (execEBREAK mInstr)
  | .OP_CSRRW => pcNext (execCSRRW mInstr)
  | .OP_CSRRS => pcNext (execCSRRS mInstr)
  | .OP_CSRRC => pcNext (execCSRRC mInstr)
  | .OP_CSRRWI => pcNext (execCSRRWI mInstr)
  | .OP_CSRRSI => pcNext (execCSRRSI mInstr)
  | .OP_CSRRCI => pcNext (execCSRRCI mInstr)
  | .OP_MRET => pcSet execMRET
  | .OP_SRET => pcSet execSRET
  | .OP_WFI => pcNext execWFI
  | .OP_SFENCE => pcNext execSFENCE
  | .OP_ADDIW => pcNext (execADDIW mInstr)
  | .OP_SLLIW => pcNext (execSLLIW mInstr)
  | .OP_SRLIW => pcNext (execSRLIW mInstr)
  | .OP_SRAIW => pcNext (execSRAIW mInstr)
  | .OP_ADDW => pcNext (execADDW mInstr)
  | .OP_SUBW => pcNext (execSUBW mInstr)
  | .OP_SLLW => pcNext (execSLLW mInstr)
  | .OP_SRLW => pcNext (execSRLW mInstr)
  | .OP_SRAW => pcNext (execSRAW mInstr)
  | .OP_URET | .OP_ERROR => pcNext NOP

/-- `decode`; `m_instr.to_uint() >> 26` is the field of bits 31 to 26. -/
def decode : OpCodes :=
  match opcode mInstr with
  | Codes.LUI => .OP_LUI
  | Codes.AUIPC => .OP_AUIPC
  | Codes.JAL => .OP_JAL
  | Codes.JALR => .OP_JALR
  | Codes.BEQ =>
    match getFunct3 mInstr with
    | Codes.BEQ_F => .OP_BEQ
    | Codes.BNE_F => .OP_BNE
    | Codes.BLT_F => .OP_BLT
    | Codes.BGE_F => .OP_BGE
    | Codes.BLTU_F => .OP_BLTU
    | Codes.BGEU_F => .OP_BGEU
    | _ => .OP_ERROR
  | Codes.LB =>
    match getFunct3 mInstr with
    | Codes.LB_F => .OP_LB
    | Codes.LH_F => .OP_LH
    | Codes.LW_F => .OP_LW
    | Codes.LBU_F => .OP_LBU
    | Codes.LHU_F => .OP_LHU
    | Codes.LWU_F => .OP_LWU
    | Codes.LD_F => .OP_LD
    | _ => .OP_ERROR
  | Codes.SB =>
    match getFunct3 mInstr with
    | Codes.SB_F => .OP_SB
    | Codes.SH_F => .OP_SH
    | Codes.SW_F => .OP_SW
    | Codes.SD_F => .OP_SD
    | _ => .OP_ERROR
  | Codes.ADDI =>
    match getFunct3 mInstr with
    | Codes.ADDI_F => .OP_ADDI
    | Codes.SLTI_F => .OP_SLTI
    | Codes.SLTIU_F => .OP_SLTIU
    | Codes.XORI_F => .OP_XORI
    | Codes.ORI_F => .OP_ORI
    | Codes.ANDI_F => .OP_ANDI
    | Codes.SLLI_F => .OP_SLLI
    | Codes.SRLI_F =>
      match (range mInstr 31 26).toNat with
      | Codes.SRLI_F7 => .OP_SRLI
      | Codes.SRAI_F7 => .OP_SRAI
      | _ => .OP_ERROR
    | _ => .OP_ERROR
  | Codes.ADD =>
    if getFunct7 mInstr ≠ 0 ∧ getFunct7 mInstr ≠ 0b0100000 then .OP_ERROR
    else
      match getFunct3 mInstr with
      | Codes.ADD_F =>
        match getFunct7 mInstr with
        | Codes.ADD_F7 => .OP_ADD
        | Codes.SUB_F7 => .OP_SUB
        | _ => .OP_ERROR
      | Codes.SLL_F => .OP_SLL
      | Codes.SLT_F => .OP_SLT
      | Codes.SLTU_F => .OP_SLTU
      | Codes.XOR_F => .OP_XOR
      | Codes.SRL_F =>
        match getFunct7 mInstr with
        | Codes.SRL_F7 => .OP_SRL
        | Codes.SRA_F7 => .OP_SRA
        | _ => .OP_ERROR
      | Codes.OR_F => .OP_OR
      | Codes.AND_F => .OP_AND
      | _ => .OP_ERROR
  | Codes.FENCE => .OP_FENCE
  | Codes.ECALL =>
    match getFunct3 mInstr with
    | Codes.ECALL_F3 =>
      match getCsr mInstr with
      | Codes.ECALL_F => .OP_ECALL
      | Codes.EBREAK_F => .OP_EBREAK
      | Codes.URET_F => .OP_URET
      | Codes.SRET_F => .OP_SRET
      | Codes.MRET_F => .OP_MRET
      | Codes.WFI_F => .OP_WFI
      | Codes.SFENCE_F => .OP_SFENCE
      | _ => if (range mInstr 31 25).toNat = 0b0001001 then .OP_SFENCE else .OP_ERROR
    | Codes.CSRRW => .OP_CSRRW
    | Codes.CSRRS => .OP_CSRRS
    | Codes.CSRRC => .OP_CSRRC
    | Codes.CSRRWI => .OP_CSRRWI
    | Codes.CSRRSI => .OP_CSRRSI
    | Codes.CSRRCI => .OP_CSRRCI
    | _ => .OP_ERROR
  | Codes.ADDIW =>
    match getFunct3 mInstr with
    | Codes.ADDIW_F => .OP_ADDIW
    | Codes.SLLIW_F => .OP_SLLIW
    | Codes.SRLIW_F =>
      match (range mInstr 31 26).toNat with
      | Codes.SRLIW_F7 => .OP_SRLIW
      | Codes.SRAIW_F7 => .OP_SRAIW
      | _ => .OP_ERROR
    | _ => .OP_ERROR
  | Codes.ADDW =>
    if getFunct7 mInstr ≠ 0 ∧ getFunct7 mInstr ≠ 0b0100000 then .OP_ERROR
    else
      match getFunct3 mInstr with
      | Codes.ADDW_F =>
        match (range mInstr 31 26).toNat with
        | Codes.ADDW_F7 => .OP_ADDW
        | Codes.SUBW_F7 => .OP_SUBW
        | _ => .OP_ERROR
      | Codes.SLLW => .OP_SLLW
      | Codes.SRLW =>
        match (range mInstr 31 26).toNat with
        | Codes.SRLW_F7 => .OP_SRLW
        | Codes.SRAW_F7 => .OP_SRAW
        | _ => .OP_ERROR
      | _ => .OP_ERROR
  | _ => .OP_ERROR

end BaseIsa

end RiscvTlm
