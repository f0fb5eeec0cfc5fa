import RiscvTlm.Bus

/-!
# The CPU's state and the functions every extension uses

`System T` is the state of one CPU with its bus, and `Sim T` runs a piece of the C++ code on it:
it returns a value or stops with a `Fault`, and in both cases leaves a state. The performance
counters, the log lines and the console output are left out, except that `exceptionLog` keeps the
causes `raiseException` reports.

Signed addition, subtraction and multiplication wrap around, as the compiled code does. A shift by
the width of its operand or more, and a division by zero or one that overflows, have no defined
result.
-/

namespace RiscvTlm

open Bytes

/-- `Exception_cause`, with `BREAKPOINT` and `BREAK` the same number. -/
inductive ExceptionCause
  | INSTRUCTION_MISALIGN
  | INSTRUCTION_ACCESS
  | ILLEGAL_INSTRUCTION
  | BREAK
  | LOAD_ADDR_MISALIGN
  | LOAD_ACCESS_FAULT
  | CALL_FROM_M_MODE
  deriving DecidableEq, Repr

/-- The number of a cause. -/
def ExceptionCause.code : ExceptionCause → BitVec 32
  | .INSTRUCTION_MISALIGN => 0
  | .INSTRUCTION_ACCESS => 1
  | .ILLEGAL_INSTRUCTION => 2
  | .BREAK => 3
  | .LOAD_ADDR_MISALIGN => 4
  | .LOAD_ACCESS_FAULT => 5
  | .CALL_FROM_M_MODE => 11

/-- A CPU with its bus. `transDmiAllowed` and `transResponseStatus` are the fields of the fetch
transaction that outlive a fetch, `tlbAEntries` the reservations of the A extension. -/
structure System (T : CpuType) where
  regs : Registers T
  bus : Bus
  INSTR : BitVec 32
  transDmiAllowed : Bool
  transResponseStatus : TlmResponse
  dmiPtrValid : Bool
  interrupt : Bool
  irqAlreadyDown : Bool
  intCause : BitVec T.xlen
  tlbAEntries : Finset (BitVec 32)
  exceptionLog : List ExceptionCause
  host : Host

/-- A piece of the C++ code, run on the state. -/
abbrev Sim (T : CpuType) := EStateM Fault (System T)

variable {T : CpuType}

/-! ## Registers -/

def getValue (regNum : ℕ) : Sim T (BitVec T.xlen) := do
  return (← get).regs.getValue regNum

def setValue (regNum : ℕ) (value : BitVec T.xlen) : Sim T Unit :=
  modify fun s => { s with regs := s.regs.setValue regNum value }

def getPC : Sim T (BitVec T.xlen) := do
  return (← get).regs.getPC

def setPC (newPc : BitVec T.xlen) : Sim T Unit :=
  modify fun s => { s with regs := s.regs.setPC newPc }

def incPC : Sim T Unit :=
  modify fun s => { s with regs := s.regs.incPC }

def incPCby2 : Sim T Unit :=
  modify fun s => { s with regs := s.regs.incPCby2 }

def getCSR (csr : ℕ) : Sim T (BitVec T.xlen) := do
  let s ← get
  return s.regs.getCSR s.host csr

def setCSR (csr : ℕ) (value : BitVec T.xlen) : Sim T Unit :=
  modify fun s => { s with regs := s.regs.setCSR csr value }

/-- The simulation ends once the running step has returned. -/
def scStop : Sim T Unit :=
  modify fun s => { s with bus := { s.bus with stopped := true } }

/-! ## Data accesses -/

/-- `std::hex` output. -/
def hex (addr : BitVec 64) : String := String.ofList (Nat.toDigits 16 addr.toNat)

/-- Sends a transaction over the bus. -/
def bTransport (trans : Payload) : Sim T Payload := do
  let s ← get
  match BusCtrl.bTransport s.bus s.host trans with
  | .ok r =>
    set { s with bus := r.1 }
    return r.2
  | .error e => throw e

/-- A transaction of the memory interface as it is before the transport. -/
def MemoryInterface.trans (command : TlmCommand) (addr : BitVec 64) (data : BitVec 32)
    (size : ℕ) : Payload where
  command := command
  address := addr
  data := data
  dataLength := size
  streamingWidth := 4
  byteEnable := false
  dmiAllowed := false
  responseStatus := .incomplete

def readDataMem (addr : BitVec 64) (size : ℕ) : Sim T (BitVec 32) := do
  let data := (← get).host.uninit addr
  let trans ← bTransport (MemoryInterface.trans .read addr data size)
  if trans.isResponseError then
    throw (.scReportError "Memory" ("Read memory: 0x" ++ hex addr))
  return trans.data

def writeDataMem (addr : BitVec 64) (data : BitVec 32) (size : ℕ) : Sim T Unit := do
  let trans ← bTransport (MemoryInterface.trans .write addr data size)
  if trans.isResponseError then
    throw (.scReportError "Memory" ("Write memory: 0x" ++ hex addr))

/-! ## Instruction fields -/

/-- `m_instr.range(hi, lo)`. -/
abbrev range (mInstr : BitVec 32) (hi lo : ℕ) : BitVec 64 := BitField.range mInstr hi lo

/-- `m_instr[i]`. -/
abbrev bit (mInstr : BitVec 32) (i : ℕ) : BitVec 64 := BitField.range mInstr i i

namespace ExtensionBase

variable (mInstr : BitVec 32)

def getRd : ℕ := (range mInstr 11 7).toNat

def getRs1 : ℕ := (range mInstr 19 15).toNat

def getRs2 : ℕ := (range mInstr 24 20).toNat

def getFunct3 : ℕ := (range mInstr 14 12).toNat

def getShamtSlli : ℕ := (range mInstr 25 20).toNat

end ExtensionBase

/-! ## Exceptions -/

/-- `RaiseException`: the PC, the old status and the trap vector pass through 32-bit variables, and
the cause is mixed into `mstatus`. -/
def raiseException (cause : ExceptionCause) (inst : BitVec 32) : Sim T Unit := do
  let currentPc : BitVec 32 := (← getPC).setWidth 32
  let mCause : BitVec 32 := (← getCSR Csr.MSTATUS).setWidth 32
  let mCause := mCause ||| cause.code
  let newPc : BitVec 32 := (← getCSR Csr.MTVEC).setWidth 32
  setCSR Csr.MEPC (currentPc.setWidth T.xlen)
  match cause with
  | .ILLEGAL_INSTRUCTION => setCSR Csr.MTVAL (inst.setWidth T.xlen)
  | .LOAD_ADDR_MISALIGN => setCSR Csr.MTVAL (currentPc.setWidth T.xlen)
  | .BREAK => scStop
  | _ => setCSR Csr.MTVAL 0
  setCSR Csr.MCAUSE (cause.code.setWidth T.xlen)
  setCSR Csr.MSTATUS (mCause.setWidth T.xlen)
  setPC (newPc.setWidth T.xlen)
  modify fun s => { s with exceptionLog := cause :: s.exceptionLog }

/-- `NOP` stops the simulation. -/
def NOP : Sim T Bool := do
  scStop
  return true

/-! ## Shifts of the host -/

/-- `x << count` on an operand of `w` bits. -/
def shl {w : ℕ} (x : BitVec w) (count : ℕ) : Sim T (BitVec w) :=
  if count < w then return x <<< count else throw .undefinedBehaviour

/-- `x >> count` on an unsigned operand of `w` bits. -/
def ushr {w : ℕ} (x : BitVec w) (count : ℕ) : Sim T (BitVec w) :=
  if count < w then return x >>> count else throw .undefinedBehaviour

/-- `x >> count` on a signed operand of `w` bits. -/
def sshr {w : ℕ} (x : BitVec w) (count : ℕ) : Sim T (BitVec w) :=
  if count < w then return x.sshiftRight count else throw .undefinedBehaviour

end RiscvTlm
