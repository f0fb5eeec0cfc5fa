import RiscvTlm.AExtension

/-!
# The CPU

`cpuStep` is `CPU_step` of both CPUs: the fetch, the cascade of the four decoders, the extension
that executes the word and the PC increment. `cpuProcessIRQ` and `callInterrupt` are the interrupt
side, and `reset` is the state the constructors leave.
-/

namespace RiscvTlm

open Bytes

variable {T : CpuType}

/-! ## Fetch -/

/-- The fetch transaction. Its command, length and widths are set once, its status is not reset. -/
def fetchTrans (s : System T) : Payload where
  command := .read
  address := s.regs.getPC.setWidth 64
  data := s.INSTR
  dataLength := 4
  streamingWidth := 4
  byteEnable := false
  dmiAllowed := s.transDmiAllowed
  responseStatus := s.transResponseStatus

/-- The copy of four bytes through the direct pointer. -/
def fetchDmi : Sim T Unit := do
  let s ← get
  let pc := s.regs.getPC.toNat
  if pc + 4 ≤ Memory.SIZE then
    set { s with INSTR := copyBytes s.INSTR (fun i => s.bus.memory.mem (pc + i)) 4 }
  else throw .undefinedBehaviour

/-- The fetch over the bus, which may obtain the direct pointer. -/
def fetchBus : Sim T Unit := do
  let trans ← bTransport (fetchTrans (← get))
  modify fun s => { s with
    INSTR := trans.data
    transDmiAllowed := trans.dmiAllowed
    transResponseStatus := trans.responseStatus }
  if trans.isResponseError then
    throw (.scReportError "CPU base" "Read memory")
  if trans.dmiAllowed then
    modify fun s => { s with dmiPtrValid := s.bus.memory.getDirectMemPtr }

/-- The first part of `CPU_step`: the fetched word. -/
def fetch : Sim T (BitVec 32) := do
  if (← get).dmiPtrValid then fetchDmi else fetchBus
  return (← get).INSTR

/-! ## Decode and execute -/

/-- The extension that executes a word and its operation code. -/
inductive Decoded
  | base (code : OpCodes)
  | c (code : OpCCodes)
  | m (code : OpMCodes)
  | a (code : OpACodes)
  | none
  deriving DecidableEq, Repr

/-- The cascade: each decoder gets the words the ones before it reject. -/
def decodeCascade (T : CpuType) (INSTR : BitVec 32) : Decoded :=
  let deco := BaseIsa.decode INSTR
  if deco ≠ .OP_ERROR then .base deco
  else
    let cDeco := CExtension.decode INSTR T
    if cDeco ≠ .OP_C_ERROR then .c cDeco
    else
      let mDeco := MExtension.decode INSTR
      if mDeco ≠ .OP_M_ERROR then .m mDeco
      else
        let aDeco := AExtension.decode INSTR
        if aDeco ≠ .OP_A_ERROR then .a aDeco
        else .none

/-- The `exec_instruction` call of the chosen extension and the PC increment after it; the result
is the breakpoint flag. -/
def execDecoded (INSTR : BitVec 32) : Decoded → Sim T Bool
  | .base deco => do
    let r ← BaseIsa.execInstruction INSTR deco
    if r.1 then incPC
    return r.2
  | .c cDeco => do
    let r ← CExtension.execInstruction INSTR cDeco
    if r.1 then incPCby2
    return r.2
  | .m mDeco => do
    let r ← MExtension.execInstruction INSTR mDeco
    if r then incPC
    return false
  | .a aDeco => do
    let r ← AExtension.execInstruction INSTR aDeco
    if r then incPC
    return false
  | .none => do
    let _ ← NOP
    return false

/-- `CPU_step`. -/
def cpuStep : Sim T Bool := do
  let INSTR ← fetch
  execDecoded INSTR (decodeCascade T INSTR)

/-! ## Interrupts -/

/-- `cpu_process_IRQ`: true when an interrupt is taken. -/
def cpuProcessIRQ : Sim T Bool := do
  let s ← get
  if s.interrupt then
    let csrTemp ← getCSR Csr.MSTATUS
    if csrTemp &&& MSTATUS_MIE T.xlen = 0 then
      return false
    let csrTemp ← getCSR Csr.MIP
    if csrTemp &&& MIP_MEIP T.xlen = 0 then
      setCSR Csr.MIP (csrTemp ||| MIP_MEIP T.xlen)
      let oldPc ← getPC
      setCSR Csr.MEPC oldPc
      setCSR Csr.MCAUSE 0x80000000#T.xlen
      let newPc ← getCSR Csr.MTVEC
      setPC newPc
      modify fun s => { s with interrupt := false, irqAlreadyDown := false }
      return true
  else if ¬s.irqAlreadyDown then
    let csrTemp ← getCSR Csr.MIP
    setCSR Csr.MIP (csrTemp &&& ~~~MIP_MEIP T.xlen)
    modify fun s => { s with irqAlreadyDown := true }
  return false

/-- `call_interrupt`: the cause is what `sizeof(BaseType)` bytes behind the data pointer hold. -/
def callInterrupt (cause : BitVec T.xlen) (s : System T) : System T :=
  { s with interrupt := true, intCause := cause }

/-! ## Reset -/

/-- The state after construction, with a memory that has been loaded and a start address. -/
def reset (memory : Memory) (PC : BitVec T.xlen) (host : Host) : System T where
  regs := Registers.setValue
    { registerBank := fun _ => 0
      registerPC := PC
      csr := Registers.initCSR T
      zero := rfl } 2 (BitVec.ofNat T.xlen (Memory.SIZE / 4 - 1))
  bus :=
    { memory := memory
      timer := ⟨0, 0, none⟩
      trace := ⟨[]⟩
      stopped := false }
  INSTR := 0
  transDmiAllowed := false
  transResponseStatus := .incomplete
  dmiPtrValid := false
  interrupt := false
  irqAlreadyDown := false
  intCause := 0
  tlbAEntries := ∅
  exceptionLog := []
  host := host

/-- A memory with a program of 32-bit words at address 0. -/
def Memory.load (program : List (BitVec 32)) : Memory where
  mem := fun a => byte (program.getD (a / 4) 0) (a % 4)
  dmiAllowed := false

/-- A CPU that starts a program of 32-bit words at address 0. -/
def start (T : CpuType) (program : List (BitVec 32)) : System T :=
  reset (Memory.load program) 0 ⟨0, id, fun _ => 0⟩

end RiscvTlm
