import RiscvTlm.Lib.Bytes
import RiscvTlm.Registers

/-!
# The bus and its targets

The generic payload of a transaction, the memory, the timer, the trace terminal, and the bus
controller that routes a transaction by its word address. Reading or writing outside the memory
array is the fault `undefinedBehaviour`, where the source runs past the end of an array.
-/

namespace RiscvTlm

open Bytes

/-- Why a step does not return: `SC_REPORT_ERROR` throws, or the C++ code has no defined result. -/
inductive Fault
  | scReportError (msgType msg : String)
  | undefinedBehaviour
  deriving DecidableEq, Repr

/-! ## Transactions -/

inductive TlmCommand
  | read
  | write
  | ignore
  deriving DecidableEq, Repr

inductive TlmResponse
  | ok
  | incomplete
  | genericError
  | addressError
  | commandError
  | burstError
  | byteEnableError
  deriving DecidableEq, Repr

/-- The fields of `tlm_generic_payload` the modules use; `data` is the 32-bit variable behind the
data pointer and `byteEnable` says that the byte-enable pointer is not null. -/
structure Payload where
  command : TlmCommand
  address : BitVec 64
  data : BitVec 32
  dataLength : ℕ
  streamingWidth : ℕ
  byteEnable : Bool
  dmiAllowed : Bool
  responseStatus : TlmResponse
  deriving DecidableEq, Repr

namespace Payload

/-- Every status but `ok` is an error, `incomplete` included. -/
def isResponseError (trans : Payload) : Bool := trans.responseStatus ≠ .ok

def setResponseStatus (trans : Payload) (status : TlmResponse) : Payload :=
  { trans with responseStatus := status }

end Payload

/-- The payload of a debug transaction; `data` are the bytes from the data pointer on. -/
structure DebugPayload where
  command : TlmCommand
  address : BitVec 64
  data : ℕ → BitVec 8
  dataLength : ℕ
  responseStatus : TlmResponse

/-- Copies `len` bytes over the low bytes of a 32-bit variable. -/
def copyBytes (dest : BitVec 32) (src : ℕ → BitVec 8) (len : ℕ) : BitVec 32 :=
  ofBytes 32 (fun i => if i < len then src i else byte dest i) 4

/-! ## Memory -/

/-- The memory array, in bytes, and whether it offers direct access. -/
structure Memory where
  mem : ℕ → BitVec 8
  dmiAllowed : Bool

namespace Memory

/-- 16 MBytes. -/
abbrev SIZE : ℕ := 0x1000000

def bTransport (m : Memory) (trans : Payload) : Except Fault (Memory × Payload) :=
  let adr := trans.address.toNat
  let len := trans.dataLength
  if adr ≥ SIZE then
    .ok (m, trans.setResponseStatus .addressError)
  else if trans.byteEnable then
    .ok (m, trans.setResponseStatus .byteEnableError)
  else if len > 4 ∨ trans.streamingWidth < len then
    .ok (m, trans.setResponseStatus .burstError)
  else
    let done (m : Memory) (data : BitVec 32) : Memory × Payload :=
      (m, { trans with data := data, dmiAllowed := m.dmiAllowed, responseStatus := .ok })
    match trans.command with
    | .ignore => .ok (done m trans.data)
    | .read =>
      if adr + len ≤ SIZE then
        .ok (done m (copyBytes trans.data (fun i => m.mem (adr + i)) len))
      else .error .undefinedBehaviour
    | .write =>
      if adr + len ≤ SIZE then
        .ok (done
          { m with mem := fun a =>
              if adr ≤ a ∧ a < adr + len then byte trans.data (a - adr) else m.mem a }
          trans.data)
      else .error .undefinedBehaviour

/-- A read does not change the array. -/
theorem bTransport_read {m : Memory} {trans : Payload} {r : Memory × Payload}
    (hc : trans.command = .read) (h : m.bTransport trans = .ok r) : r.1 = m := by
  rw [bTransport, hc] at h
  grind

/-- A debug transaction: the number of bytes it returns, the number it copied, what it leaves. -/
structure DebugTransport where
  memory : Memory
  trans : DebugPayload
  numBytes : ℕ
  copied : ℕ

def transportDbg (m : Memory) (trans : DebugPayload) : Except Fault DebugTransport :=
  let adr := trans.address.toNat
  let len := trans.dataLength
  if adr ≥ SIZE then
    .ok ⟨m, { trans with responseStatus := .addressError }, 0, 0⟩
  else
    let numBytes := if len < (SIZE - adr) * 4 then len else (SIZE - adr) * 4
    match trans.command with
    | .ignore => .ok ⟨m, trans, numBytes, 0⟩
    | .read =>
      if adr + len ≤ SIZE then
        let data := fun i => if i < len then m.mem (adr + i) else trans.data i
        .ok ⟨m, { trans with data }, numBytes, len⟩
      else .error .undefinedBehaviour
    | .write =>
      if adr + len ≤ SIZE then
        let mem := fun a => if adr ≤ a ∧ a < adr + len then trans.data (a - adr) else m.mem a
        .ok ⟨{ m with mem }, trans, numBytes, len⟩
      else .error .undefinedBehaviour

/-- No transaction changes the offer of direct access. -/
theorem bTransport_dmiAllowed {m : Memory} {trans : Payload} {r : Memory × Payload}
    (h : m.bTransport trans = .ok r) : r.1.dmiAllowed = m.dmiAllowed := by
  unfold bTransport at h
  grind

/-- Whether the direct pointer is granted; it then points to the first byte of the array. -/
def getDirectMemPtr (m : Memory) : Bool := m.dmiAllowed

end Memory

/-! ## Timer and trace -/

/-- The two timer registers and the absolute time of the pending notification. -/
structure Timer where
  mtime : BitVec 64
  mtimecmp : BitVec 64
  timerEvent : Option (BitVec 64)

abbrev TIMER_MEMORY_ADDRESS_LO : ℕ := 0x40004000
abbrev TIMER_MEMORY_ADDRESS_HI : ℕ := 0x40004004
abbrev TIMERCMP_MEMORY_ADDRESS_LO : ℕ := 0x40004008
abbrev TIMERCMP_MEMORY_ADDRESS_HI : ℕ := 0x4000400C

namespace Timer

/-- Writes the bits `31 .. 0`. -/
def setLow (x : BitVec 64) (v : BitVec 32) : BitVec 64 :=
  x &&& 0xFFFFFFFF00000000#64 ||| v.setWidth 64

/-- Writes the bits `63 .. 32`. -/
def setHigh (x : BitVec 64) (v : BitVec 32) : BitVec 64 :=
  x &&& 0x00000000FFFFFFFF#64 ||| v.setWidth 64 <<< 32

/-- An event holds one pending notification: an earlier one replaces it, a later one is lost. -/
def notify (timer : Timer) (now delay : BitVec 64) : Timer :=
  let time := now + delay
  match timer.timerEvent with
  | some pending => if pending ≤ time then timer else { timer with timerEvent := some time }
  | none => { timer with timerEvent := some time }

def bTransport (timer : Timer) (host : Host) (trans : Payload) : Timer × Payload :=
  let addr := trans.address.toNat
  let fail := trans.setResponseStatus .addressError
  match trans.command with
  | .write =>
    let auxValue := copyBytes 0 (byte trans.data) trans.dataLength
    let ok := trans.setResponseStatus .ok
    if addr = TIMER_MEMORY_ADDRESS_LO then
      ({ timer with mtime := setLow timer.mtime auxValue }, ok)
    else if addr = TIMER_MEMORY_ADDRESS_HI then
      ({ timer with mtime := setHigh timer.mtime auxValue }, ok)
    else if addr = TIMERCMP_MEMORY_ADDRESS_LO then
      ({ timer with mtimecmp := setLow timer.mtimecmp auxValue }, ok)
    else if addr = TIMERCMP_MEMORY_ADDRESS_HI then
      let timer := { timer with mtimecmp := setHigh timer.mtimecmp auxValue }
      (timer.notify host.timeStamp (timer.mtimecmp - timer.mtime), ok)
    else (timer, fail)
  | _ =>
    let ok (auxValue : BitVec 32) : Payload :=
      { trans with
        data := copyBytes trans.data (byte auxValue) trans.dataLength, responseStatus := .ok }
    if addr = TIMER_MEMORY_ADDRESS_LO then
      let timer := { timer with mtime := host.timeStamp }
      (timer, ok (timer.mtime.setWidth 32))
    else if addr = TIMER_MEMORY_ADDRESS_HI then
      (timer, ok ((timer.mtime >>> 32).setWidth 32))
    else if addr = TIMERCMP_MEMORY_ADDRESS_LO then
      (timer, ok (timer.mtimecmp.setWidth 32))
    else if addr = TIMERCMP_MEMORY_ADDRESS_HI then
      (timer, ok ((timer.mtimecmp >>> 32).setWidth 32))
    else (timer, fail)

end Timer

abbrev TRACE_MEMORY_ADDRESS : ℕ := 0x40000000
abbrev TO_HOST_ADDRESS : ℕ := 0x90000000

/-- The bytes written to the terminal, the latest first. -/
structure Trace where
  output : List (BitVec 8)

/-- The terminal gets the first byte of the data, whatever the command. -/
def Trace.bTransport (trace : Trace) (trans : Payload) : Trace × Payload :=
  (⟨byte trans.data 0 :: trace.output⟩, trans.setResponseStatus .ok)

/-! ## The bus controller -/

/-- The bus with its targets, and whether `sc_stop` was called. -/
structure Bus where
  memory : Memory
  timer : Timer
  trace : Trace
  stopped : Bool

namespace BusCtrl

/-- Routes a transaction by its word address. Past `TO_HOST_ADDRESS` the simulation stops and the
status stays as it was; a target's own status is replaced by `ok`. -/
def bTransport (bus : Bus) (host : Host) (trans : Payload) : Except Fault (Bus × Payload) :=
  let adr := trans.address.toNat / 4
  if adr ≥ TO_HOST_ADDRESS / 4 then
    .ok ({ bus with stopped := true }, trans)
  else if adr = TIMER_MEMORY_ADDRESS_HI / 4 ∨ adr = TIMER_MEMORY_ADDRESS_LO / 4 ∨
      adr = TIMERCMP_MEMORY_ADDRESS_HI / 4 ∨ adr = TIMERCMP_MEMORY_ADDRESS_LO / 4 then
    let r := bus.timer.bTransport host trans
    .ok ({ bus with timer := r.1 }, r.2.setResponseStatus .ok)
  else if adr = TRACE_MEMORY_ADDRESS / 4 then
    let r := bus.trace.bTransport trans
    .ok ({ bus with trace := r.1 }, r.2.setResponseStatus .ok)
  else
    match bus.memory.bTransport trans with
    | .ok r => .ok ({ bus with memory := r.1 }, r.2.setResponseStatus .ok)
    | .error e => .error e

/-- A read over the bus does not change the memory. -/
theorem bTransport_read {bus : Bus} {host : Host} {trans : Payload} {r : Bus × Payload}
    (hc : trans.command = .read) (h : bTransport bus host trans = .ok r) :
    r.1.memory = bus.memory := by
  have hm (r : Memory × Payload) (hr : bus.memory.bTransport trans = .ok r) : r.1 = bus.memory :=
    Memory.bTransport_read hc hr
  unfold bTransport at h
  grind

theorem bTransport_dmiAllowed {bus : Bus} {host : Host} {trans : Payload} {r : Bus × Payload}
    (h : bTransport bus host trans = .ok r) : r.1.memory.dmiAllowed = bus.memory.dmiAllowed := by
  have hm (r : Memory × Payload) (hr : bus.memory.bTransport trans = .ok r) :
      r.1.dmiAllowed = bus.memory.dmiAllowed := Memory.bTransport_dmiAllowed hr
  unfold bTransport at h
  grind

end BusCtrl

end RiscvTlm
