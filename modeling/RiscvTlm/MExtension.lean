import RiscvTlm.CExtension

/-!
# The multiply and divide extension

`M_extension<T>`. Its decoder looks at the opcode only to tell the two tables apart and at `funct3`
otherwise. `sc_bigint<128>` is exact two's complement on 128 bits.
-/

namespace RiscvTlm

/-- `op_M_Codes`. -/
inductive OpMCodes
  | OP_M_MUL | OP_M_MULH | OP_M_MULHSU | OP_M_MULHU | OP_M_DIV | OP_M_DIVU | OP_M_REM | OP_M_REMU
  | OP_M_MULW | OP_M_DIVW | OP_M_DIVUW | OP_M_REMW | OP_M_REMUW
  | OP_M_ERROR
  deriving DecidableEq, Repr

namespace MCodes

@[match_pattern] abbrev M_MUL : ℕ := 0b000
@[match_pattern] abbrev M_MULH : ℕ := 0b001
@[match_pattern] abbrev M_MULHSU : ℕ := 0b010
@[match_pattern] abbrev M_MULHU : ℕ := 0b011
@[match_pattern] abbrev M_DIV : ℕ := 0b100
@[match_pattern] abbrev M_DIVU : ℕ := 0b101
@[match_pattern] abbrev M_REM : ℕ := 0b110
@[match_pattern] abbrev M_REMU : ℕ := 0b111
@[match_pattern] abbrev M_MULW : ℕ := 0b000
@[match_pattern] abbrev M_DIVW : ℕ := 0b100
@[match_pattern] abbrev M_DIVUW : ℕ := 0b101
@[match_pattern] abbrev M_REMW : ℕ := 0b110
@[match_pattern] abbrev M_REMUW : ℕ := 0b111

end MCodes

namespace MExtension

open ExtensionBase

variable {T : CpuType} (mInstr : BitVec 32)

/-! ## The decoder -/

def opcode : ℕ := (range mInstr 14 12).toNat

def decode : OpMCodes :=
  if range mInstr 6 0 = 0b110011 then
    match opcode mInstr with
    | MCodes.M_MUL => .OP_M_MUL
    | MCodes.M_MULH => .OP_M_MULH
    | MCodes.M_MULHSU => .OP_M_MULHSU
    | MCodes.M_MULHU => .OP_M_MULHU
    | MCodes.M_DIV => .OP_M_DIV
    | MCodes.M_DIVU => .OP_M_DIVU
    | MCodes.M_REM => .OP_M_REM
    | MCodes.M_REMU => .OP_M_REMU
    | _ => .OP_M_ERROR
  else
    match opcode mInstr with
    | MCodes.M_MULW => .OP_M_MULW
    | MCodes.M_DIVW => .OP_M_DIVW
    | MCodes.M_DIVUW => .OP_M_DIVUW
    | MCodes.M_REMW => .OP_M_REMW
    | MCodes.M_REMUW => .OP_M_REMUW
    | _ => .OP_M_ERROR

/-! ## Multiplication and division -/

/-- The frame every function shares: two operands, one result. -/
def execOp (op : BitVec T.xlen → BitVec T.xlen → Sim T (BitVec T.xlen)) : Sim T Unit := do
  let rd := getRd mInstr
  let rs1 := getRs1 mInstr
  let rs2 := getRs2 mInstr
  setValue rd (← op (← getValue rs1) (← getValue rs2))

def execMUL : Sim T Unit := execOp mInstr fun multiplier multiplicand =>
  return multiplier * multiplicand

/-- The high half of a product of two operands widened to twice their width. -/
def mulHigh {w : ℕ} (multiplier multiplicand : BitVec (2 * w)) : BitVec w :=
  ((multiplier * multiplicand) >>> w).setWidth w

def execMULH : Sim T Unit := execOp mInstr fun multiplier multiplicand =>
  return mulHigh (multiplier.signExtend _) (multiplicand.signExtend _)

def execMULHSU : Sim T Unit := execOp mInstr fun multiplier multiplicand =>
  return mulHigh (multiplier.signExtend _) (multiplicand.setWidth _)

def execMULHU : Sim T Unit := execOp mInstr fun multiplier multiplicand =>
  return mulHigh (multiplier.setWidth _) (multiplicand.setWidth _)

/-- Signed division or remainder of the host: there is none by zero, and the quotient of the least
value by `-1` overflows. -/
def sdivHost {w : ℕ} (op : BitVec w → BitVec w → BitVec w) (dividend divisor : BitVec w) :
    Sim T (BitVec w) :=
  if divisor = 0 ∨ dividend = BitVec.intMin w ∧ divisor = -1 then throw .undefinedBehaviour
  else return op dividend divisor

/-- Unsigned division or remainder of the host. -/
def udivHost {w : ℕ} (op : BitVec w → BitVec w → BitVec w) (dividend divisor : BitVec w) :
    Sim T (BitVec w) :=
  if divisor = 0 then throw .undefinedBehaviour else return op dividend divisor

/-- `static_cast<std::int32_t>(0x80000000)`, widened. -/
def minInt32 (w : ℕ) : BitVec w := (0x80000000#32).signExtend w

/-- The quotient is a `std::int64_t`; the overflow case is the one of 32-bit operands. -/
def execDIV : Sim T Unit := execOp mInstr fun dividend divisor => do
  if divisor = 0 then return -1
  else if divisor = -1 ∧ dividend = minInt32 T.xlen then return 0x80000000#T.xlen
  else sdivHost BitVec.sdiv dividend divisor

def execDIVU : Sim T Unit := execOp mInstr fun dividend divisor => do
  if divisor = 0 then return -1
  else udivHost (· / ·) dividend divisor

def execREM : Sim T Unit := execOp mInstr fun dividend divisor => do
  if divisor = 0 then return dividend
  else if divisor = -1 ∧ dividend = minInt32 T.xlen then return 0
  else sdivHost BitVec.srem dividend divisor

def execREMU : Sim T Unit := execOp mInstr fun dividend divisor => do
  if divisor = 0 then return dividend
  else udivHost (· % ·) dividend divisor

/-! ## Word operations -/

/-- The low word of a register value. -/
def lowWord (value : BitVec T.xlen) : BitVec 32 := (value &&& 0xFFFFFFFF#T.xlen).setWidth 32

def execMULW : Sim T Unit := execOp mInstr fun val1 val2 =>
  return (lowWord val1 * lowWord val2).signExtend T.xlen

/-- The overflow case writes `0x80000000` without its sign. -/
def execDIVW : Sim T Unit := execOp mInstr fun val1 val2 => do
  let dividend := lowWord val1
  let divisor := lowWord val2
  if divisor = 0 then return -1
  else if divisor = -1 ∧ dividend = 0x80000000 then return (0x80000000#64).setWidth T.xlen
  else return (← sdivHost BitVec.sdiv dividend divisor).signExtend T.xlen

/-- Treats the operands of the signed overflow as a special case. -/
def execDIVUW : Sim T Unit := execOp mInstr fun val1 val2 => do
  let dividend := lowWord val1
  let divisor := lowWord val2
  if divisor = 0 then return -1
  else if divisor = 0xFFFFFFFF ∧ dividend = 0x80000000 then
    return (0x80000000#64).setWidth T.xlen
  else return (← udivHost (· / ·) dividend divisor).signExtend T.xlen

def execREMW : Sim T Unit := execOp mInstr fun val1 val2 => do
  let dividend := lowWord val1
  let divisor := lowWord val2
  if divisor = 0 then return dividend.signExtend T.xlen
  else if divisor = -1 then return 0
  else return (← sdivHost BitVec.srem dividend divisor).signExtend T.xlen

def execREMUW : Sim T Unit := execOp mInstr fun val1 val2 => do
  let dividend := lowWord val1
  let divisor := lowWord val2
  if divisor = 0 then return dividend.signExtend T.xlen
  else return (← udivHost (· % ·) dividend divisor).signExtend T.xlen

/-! ## The switch -/

/-- `exec_instruction`, which always returns true. -/
def execInstruction (code : OpMCodes) : Sim T Bool := do
  match code with
  | .OP_M_MUL => execMUL mInstr
  | .OP_M_MULH => execMULH mInstr
  | .OP_M_MULHSU => execMULHSU mInstr
  | .OP_M_MULHU => execMULHU mInstr
  | .OP_M_DIV => execDIV mInstr
  | .OP_M_DIVU => execDIVU mInstr
  | .OP_M_REM => execREM mInstr
  | .OP_M_REMU => execREMU mInstr
  | .OP_M_MULW => execMULW mInstr
  | .OP_M_DIVW => execDIVW mInstr
  | .OP_M_DIVUW => execDIVUW mInstr
  | .OP_M_REMW => execREMW mInstr
  | .OP_M_REMUW => execREMUW mInstr
  | .OP_M_ERROR => scStop
  return true

end MExtension

end RiscvTlm
