import RiscvTlm.MExtension

/-!
# The atomic extension

`A_extension<T>`. The decoder looks at bits 31 to 27 only; every address is a `std::uint32_t`; the
reservations are a set that `LR` adds to and `SC` takes from.
-/

namespace RiscvTlm

/-- `op_A_Codes`. -/
inductive OpACodes
  | OP_A_LR | OP_A_SC | OP_A_AMOSWAP | OP_A_AMOADD | OP_A_AMOXOR | OP_A_AMOAND | OP_A_AMOOR
  | OP_A_AMOMIN | OP_A_AMOMAX | OP_A_AMOMINU | OP_A_AMOMAXU
  | OP_A_ERROR
  deriving DecidableEq, Repr

namespace ACodes

@[match_pattern] abbrev A_LR : ℕ := 0b00010
@[match_pattern] abbrev A_SC : ℕ := 0b00011
@[match_pattern] abbrev A_AMOSWAP : ℕ := 0b00001
@[match_pattern] abbrev A_AMOADD : ℕ := 0b00000
@[match_pattern] abbrev A_AMOXOR : ℕ := 0b00100
@[match_pattern] abbrev A_AMOAND : ℕ := 0b01100
@[match_pattern] abbrev A_AMOOR : ℕ := 0b01000
@[match_pattern] abbrev A_AMOMIN : ℕ := 0b10000
@[match_pattern] abbrev A_AMOMAX : ℕ := 0b10100
@[match_pattern] abbrev A_AMOMINU : ℕ := 0b11000
@[match_pattern] abbrev A_AMOMAXU : ℕ := 0b11100

end ACodes

namespace AExtension

open ExtensionBase

variable {T : CpuType} (mInstr : BitVec 32)

/-! ## The decoder -/

def opcode : ℕ := (range mInstr 31 27).toNat

def decode : OpACodes :=
  match opcode mInstr with
  | ACodes.A_LR => .OP_A_LR
  | ACodes.A_SC => .OP_A_SC
  | ACodes.A_AMOSWAP => .OP_A_AMOSWAP
  | ACodes.A_AMOADD => .OP_A_AMOADD
  | ACodes.A_AMOXOR => .OP_A_AMOXOR
  | ACodes.A_AMOAND => .OP_A_AMOAND
  | ACodes.A_AMOOR => .OP_A_AMOOR
  | ACodes.A_AMOMIN => .OP_A_AMOMIN
  | ACodes.A_AMOMAX => .OP_A_AMOMAX
  | ACodes.A_AMOMINU => .OP_A_AMOMINU
  | ACodes.A_AMOMAXU => .OP_A_AMOMAXU
  | _ => .OP_A_ERROR

/-! ## Reservations -/

def tlbReserve (address : BitVec 32) : Sim T Unit :=
  modify fun s => { s with tlbAEntries := insert address s.tlbAEntries }

/-- A reservation is used up by the test that finds it. -/
def tlbReserved (address : BitVec 32) : Sim T Bool := do
  let s ← get
  if address ∈ s.tlbAEntries then
    set { s with tlbAEntries := s.tlbAEntries.erase address }
    return true
  else return false

/-! ## Load-reserved and store-conditional -/

def execLR : Sim T Bool := do
  let rd := getRd mInstr
  let rs1 := getRs1 mInstr
  let rs2 := getRs2 mInstr
  if rs2 ≠ 0 then
    raiseException .ILLEGAL_INSTRUCTION mInstr
    return false
  let memAddr : BitVec 32 := (← getValue rs1).setWidth 32
  let data ← readDataMem (memAddr.setWidth 64) 4
  setValue rd (data.signExtend T.xlen)
  tlbReserve memAddr
  return true

def execSC : Sim T Bool := do
  let rd := getRd mInstr
  let rs1 := getRs1 mInstr
  let rs2 := getRs2 mInstr
  let memAddr : BitVec 32 := (← getValue rs1).setWidth 32
  let data : BitVec 32 := (← getValue rs2).setWidth 32
  if ← tlbReserved memAddr then
    writeDataMem (memAddr.setWidth 64) data 4
    setValue rd 0
  else
    setValue rd 1
  return true

/-! ## Read-modify-write operations -/

/-- `rs2` is read after `rd` is written, and then written too. -/
def execAMOSWAP : Sim T Bool := do
  let rd := getRd mInstr
  let rs1 := getRs1 mInstr
  let rs2 := getRs2 mInstr
  let memAddr : BitVec 32 := (← getValue rs1).setWidth 32
  let data ← readDataMem (memAddr.setWidth 64) 4
  setValue rd (data.signExtend T.xlen)
  let aux : BitVec 32 := (← getValue rs2).setWidth 32
  setValue rs2 (data.signExtend T.xlen)
  writeDataMem (memAddr.setWidth 64) aux 4
  return true

/-- The body of the other operations: `rs2` is read after `rd` is written. -/
def execAmo (op : BitVec 32 → BitVec 32 → BitVec 32) : Sim T Bool := do
  let rd := getRd mInstr
  let rs1 := getRs1 mInstr
  let rs2 := getRs2 mInstr
  let memAddr : BitVec 32 := (← getValue rs1).setWidth 32
  let data ← readDataMem (memAddr.setWidth 64) 4
  setValue rd (data.signExtend T.xlen)
  let aux : BitVec 32 := (← getValue rs2).setWidth 32
  writeDataMem (memAddr.setWidth 64) (op data aux) 4
  return true

def execAMOADD : Sim T Bool := execAmo mInstr fun data aux => data + aux
def execAMOXOR : Sim T Bool := execAmo mInstr fun data aux => data ^^^ aux
def execAMOAND : Sim T Bool := execAmo mInstr fun data aux => data &&& aux
def execAMOOR : Sim T Bool := execAmo mInstr fun data aux => data ||| aux
def execAMOMIN : Sim T Bool := execAmo mInstr fun data aux => if data.slt aux then data else aux
def execAMOMAX : Sim T Bool := execAmo mInstr fun data aux => if aux.slt data then data else aux
def execAMOMINU : Sim T Bool := execAmo mInstr fun data aux => if data.ult aux then data else aux
def execAMOMAXU : Sim T Bool := execAmo mInstr fun data aux => if aux.ult data then data else aux

/-! ## The switch -/

/-- `exec_instruction`: what `Exec_A_LR` returns is not forwarded. -/
def execInstruction (code : OpACodes) : Sim T Bool := do
  let _ ← match code with
    | .OP_A_LR => execLR mInstr
    | .OP_A_SC => execSC mInstr
    | .OP_A_AMOSWAP => execAMOSWAP mInstr
    | .OP_A_AMOADD => execAMOADD mInstr
    | .OP_A_AMOXOR => execAMOXOR mInstr
    | .OP_A_AMOAND => execAMOAND mInstr
    | .OP_A_AMOOR => execAMOOR mInstr
    | .OP_A_AMOMIN => execAMOMIN mInstr
    | .OP_A_AMOMAX => execAMOMAX mInstr
    | .OP_A_AMOMINU => execAMOMINU mInstr
    | .OP_A_AMOMAXU => execAMOMAXU mInstr
    | .OP_A_ERROR => NOP
  return true

end AExtension

end RiscvTlm
