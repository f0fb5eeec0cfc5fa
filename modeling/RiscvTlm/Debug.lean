import RiscvTlm.Cpu
import RiscvTlm.Lib.CString

/-!
# The debugger

`Debug`, the GDB stub: the packets over the buffer `iobuf`, the commands of `handle_gdb_loop` and
the two loops that step the CPU. A character is a `char`; `strtol` is clamped to a `long` and then
converted as the code does. A frame that is too long for `iobuf`, a read of more bytes than
`pyld_array` has and a pointer past the end of a string have no defined result.
-/

namespace RiscvTlm

open CString

/-- Why `handle_gdb_loop` does not go on. -/
inductive DebugFault
  | fault (e : Fault)
  | lengthError
  deriving DecidableEq, Repr

abbrev bufsize : ℕ := 1024 * 8

/-- The buffer for the packets in both directions. -/
def Iobuf : Type := { chars : List Char // chars.length = bufsize }

/-- Characters written from the start of the buffer on. -/
def Iobuf.write (iobuf : Iobuf) (s : List Char) : Iobuf where
  val := (s ++ iobuf.val.drop s.length).take bufsize
  property := by
    have h := iobuf.property
    rw [List.length_take, List.length_append, List.length_drop]
    omega

/-- The initial buffer. -/
def Iobuf.zero : Iobuf := ⟨List.replicate bufsize '\x00', List.length_replicate⟩

namespace Debug

/-! ## Packets -/

/-- `receive_packet` after a `recv` of some bytes; none is a `recv` that fails. A single byte counts
as an acknowledgement, whatever it is. -/
def receivePacket (iobuf : Iobuf) (received : Option (List Char)) :
    Except DebugFault (Iobuf × List Char) :=
  let iobuf := match received with
    | some bytes => iobuf.write bytes
    | none => iobuf
  match received with
  | some [] => .ok (iobuf, [])
  | some [_] => .ok (iobuf, ['+'])
  | _ =>
    match strchr iobuf.val '$', strchr iobuf.val '#' with
    | some start, some stop =>
      if start + 1 ≤ stop then
        .ok (iobuf, (iobuf.val.drop (start + 1)).take (stop - (start + 1)))
      else .error .lengthError
    | _, _ => .error (.fault .undefinedBehaviour)

def nibbleToHex : List Char := "0123456789abcdef".toList

/-- The characters are `signed char`. -/
def computeChecksumString (msg : List Char) : List Char :=
  let sum : BitVec 32 := msg.foldl (fun sum c => sum + (BitVec.ofNat 8 c.toNat).signExtend 32) 0
  let sum := sum.toNat % 256
  [nibbleToHex.getD (sum / 16) '0', nibbleToHex.getD (sum % 16) '0']

/-- `send_packet`: the buffer after it and the frame sent. -/
def sendPacket (iobuf : Iobuf) (msg : List Char) : Except DebugFault (Iobuf × List Char) :=
  let frame := ['+', '$'] ++ msg ++ ['#'] ++ computeChecksumString msg
  if frame.length ≤ bufsize then .ok (iobuf.write frame, frame)
  else .error (.fault .undefinedBehaviour)

/-! ## Numbers -/

/-- `strtol` as a `long`, and where it stops: at the start when there is no digit. -/
def toLong (s : List Char) : ℤ × List Char :=
  match strtol s with
  | some r => (max (-2 ^ 63) (min (2 ^ 63 - 1) r.1), r.2)
  | none => (0, s)

/-- The characters from `msg.c_str() + n` on. -/
def suffixFrom (msg : List Char) (n : ℕ) : Except DebugFault (List Char) :=
  if n ≤ msg.length then .ok (msg.drop n) else .error (.fault .undefinedBehaviour)

/-- A number after `std::setw(width)`, `std::setfill('0')` and `std::hex`. -/
def hexWidth (width n : ℕ) : List Char :=
  let digits := Nat.toDigits 16 n
  List.replicate (width - digits.length) '0' ++ digits

/-- `htonl` on a little-endian host. -/
def htonl (x : BitVec 32) : BitVec 32 :=
  x.extractLsb' 0 8 ++ x.extractLsb' 8 8 ++ x.extractLsb' 16 8 ++ x.extractLsb' 24 8

end Debug

/-- The stub with the CPU it controls. -/
structure Debug (T : CpuType) where
  cpu : System T
  iobuf : Iobuf
  pyldArray : ℕ → BitVec 8
  breakpoints : Finset (BitVec 32)

namespace Debug

variable {T : CpuType}

/-! ## Stepping -/

/-- The address of the next instruction, as a key of the set of breakpoints. -/
def atBreakpoint (d : Debug T) : Bool := d.cpu.regs.getPC.setWidth 32 ∈ d.breakpoints

/-- A call of `CPU_step`, with its breakpoint flag. -/
def callStep (d : Debug T) : Except DebugFault (Debug T × Bool) :=
  match cpuStep.run d.cpu with
  | .ok bkpt cpu => .ok ({ d with cpu }, bkpt)
  | .error e _ => .error (.fault e)

/-- One turn of the loop of `c`, and whether it goes on. -/
def continueTurn (d : Debug T) : Except DebugFault (Debug T × Bool) := do
  let (d, bkpt) ← d.callStep
  return (d, !d.atBreakpoint && !bkpt)

/-- The loop of `c`, if it ends within `fuel` turns. -/
def continueLoop (d : Debug T) : ℕ → Except DebugFault (Option (Debug T))
  | 0 => .ok none
  | fuel + 1 => do
    let (d, goOn) ← d.continueTurn
    if goOn then continueLoop d fuel else return some d

/-! ## Commands -/

/-- The state after a message, the reply, and whether the loop of the stub goes on. -/
structure Answer (T : CpuType) where
  debug : Debug T
  reply : Option (List Char)
  goOn : Bool

def answer (d : Debug T) (reply : List Char) : Answer T := ⟨d, some reply, true⟩

/-- `g`: the registers of an `RV32` CPU only, without `x0`. -/
def readRegisters (d : Debug T) : List Char :=
  match T with
  | .RV32 => (List.range' 1 31).flatMap fun i => hexWidth 8 (d.cpu.regs.getValue i).toNat
  | .RV64 => []

/-- The value that `p` reads: a register by its number as an `unsigned int`, the PC, or a CSR. -/
def registerValue (d : Debug T) (n : ℤ) : BitVec 64 :=
  if n < 32 then (d.cpu.regs.getValue (BitVec.ofInt 32 n).toNat).setWidth 64
  else if n = 32 then d.cpu.regs.getPC.setWidth 64
  else
    let csr := ((BitVec.ofInt 32 (n - 65)).signExtend T.xlen).toNat
    (d.cpu.regs.getCSR d.cpu.host csr).setWidth 64

/-- `p`: at most 32 bits of the value are sent. -/
def readRegister (d : Debug T) (msg : List Char) : Except DebugFault (Answer T) := do
  let n := (toLong (← suffixFrom msg 1)).1
  let value := (htonl ((d.registerValue n).setWidth 32)).toNat
  return d.answer (hexWidth (match T with | .RV32 => 8 | .RV64 => 16) value)

/-- `P`: the register after the one named, the value an `int`. -/
def writeRegister (d : Debug T) (msg : List Char) : Except DebugFault (Answer T) := do
  let (reg, pEnd) := toLong (← suffixFrom msg 1)
  let val : BitVec 32 := BitVec.ofInt 32 (toLong (← suffixFrom pEnd 1)).1
  let regs := d.cpu.regs.setValue (BitVec.ofInt 32 (reg + 1)).toNat (val.signExtend T.xlen)
  return { d with cpu := { d.cpu with regs } }.answer "OK".toList

/-- `m`: the reply is the whole of `pyld_array`. -/
def readMemory (d : Debug T) (msg : List Char) : Except DebugFault (Answer T) := do
  let (addr, pEnd) := toLong (← suffixFrom msg 1)
  let len : BitVec 32 := BitVec.ofInt 32 (toLong (← suffixFrom pEnd 1)).1
  let trans : DebugPayload :=
    ⟨.read, BitVec.ofInt 64 addr, d.pyldArray, len.toNat, .incomplete⟩
  match d.cpu.bus.memory.transportDbg trans with
  | .error e => throw (.fault e)
  | .ok r =>
    if r.copied ≤ 128 then
      let d := { d with pyldArray := r.trans.data }
      return d.answer ((List.range 128).flatMap fun i => hexWidth 2 (d.pyldArray i).toNat)
    else throw (.fault .undefinedBehaviour)

/-- The address that a breakpoint command names. -/
def breakpointAddress (msg : List Char) : Except DebugFault (BitVec 32) := do
  return BitVec.ofInt 32 (toLong (← suffixFrom msg 3)).1

def insertBreakpoint (d : Debug T) (msg : List Char) : Except DebugFault (Answer T) := do
  let addr ← breakpointAddress msg
  return { d with breakpoints := insert addr d.breakpoints }.answer "OK".toList

def eraseBreakpoint (d : Debug T) (msg : List Char) (reply : List Char) :
    Except DebugFault (Answer T) := do
  let addr ← breakpointAddress msg
  return { d with breakpoints := d.breakpoints.erase addr }.answer reply

/-- `s`. -/
def singleStep (d : Debug T) : Except DebugFault (Answer T) := do
  let (d, _) ← d.callStep
  return d.answer (if d.atBreakpoint then "S03".toList else "S05".toList)

/-- One message of the loop, if a `c` in it ends within `fuel` turns. -/
def handleMessage (fuel : ℕ) (d : Debug T) (msg : List Char) :
    Except DebugFault (Option (Answer T)) :=
  let startsWith (p : String) : Bool := p.toList.isPrefixOf msg
  let is (p : String) : Bool := msg = p.toList
  let ok (reply : String) : Except DebugFault (Option (Answer T)) :=
    .ok (some (d.answer reply.toList))
  if msg.isEmpty then .ok (some ⟨d, none, false⟩)
  else if is "+" then .ok (some ⟨d, none, true⟩)
  else if startsWith "qSupported" then
    ok "PacketSize=256;swbreak+;hwbreak+;vContSupported+;multiprocess-"
  else if is "vMustReplyEmpty" then ok ""
  else if is "Hg0" then ok "OK"
  else if is "Hc0" then ok ""
  else if is "qTStatus" then ok ""
  else if is "?" then ok "S05"
  else if is "qfThreadInfo" then ok ""
  else if startsWith "qL" then ok ""
  else if is "Hc-1" then ok "OK"
  else if is "qC" then ok "-1"
  else if is "qAttached" then ok "0"
  else if is "g" then .ok (some (d.answer d.readRegisters))
  else if startsWith "p" then some <$> d.readRegister msg
  else if startsWith "P" then some <$> d.writeRegister msg
  else if startsWith "m" then some <$> d.readMemory msg
  else if startsWith "M" then ok "OK"
  else if startsWith "X" then ok ""
  else if is "qOffsets" then ok "Text=0;Data=0;Bss=0"
  else if is "qSymbol::" then ok "OK"
  else if is "vCont?" then ok "vCont;cs"
  else if is "c" then (·.map fun d => d.answer "S05".toList) <$> d.continueLoop fuel
  else if is "s" then some <$> d.singleStep
  else if startsWith "vKill" then .ok (some ⟨d, some "OK".toList, false⟩)
  else if startsWith "Z1" then some <$> d.insertBreakpoint msg
  else if startsWith "z1" then some <$> d.eraseBreakpoint msg "OK".toList
  else if startsWith "z0" then some <$> d.eraseBreakpoint msg []
  else if startsWith "Z0" then some <$> d.insertBreakpoint msg
  else .ok (some ⟨d, none, false⟩)

/-- `handle_gdb_loop` on what the calls of `recv` return: the state after it and the frames sent. -/
def handleGdbLoop (fuel : ℕ) (d : Debug T) :
    List (Option (List Char)) → Except DebugFault (Option (Debug T × List (List Char)))
  | [] => .ok (some (d, []))
  | received :: rest => do
    let (iobuf, msg) ← receivePacket d.iobuf received
    match ← handleMessage fuel { d with iobuf } msg with
    | none => return none
    | some a =>
      let (d, frames) ← match a.reply with
        | some reply => do
          let (iobuf, frame) ← sendPacket a.debug.iobuf reply
          pure ({ a.debug with iobuf }, [frame])
        | none => pure (a.debug, [])
      if a.goOn then
        match ← handleGdbLoop fuel d rest with
        | none => return none
        | some r => return some (r.1, frames ++ r.2)
      else return some (d, frames)

end Debug

end RiscvTlm
