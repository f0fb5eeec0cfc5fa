import RiscvTlm.Breakpoints
import RiscvTlm.DebugMemory
import RiscvTlm.DebugRegisters
import RiscvTlm.Refinement

/-!
# A debugging session

A debugger that looks at the registers and the memory, sets and removes breakpoints, steps and
continues. `Debuggee` is what it debugs: the hart of the manual, the breakpoints, and the array that
memory is read into. The stub answers every session as the target does, packet by packet.
-/

namespace RiscvTlm

open Isa Prog Transitions CString HexText

variable {T : CpuType}

/-! ## The target -/

/-- A request of the debugger. -/
inductive Request
  | register (n : ℕ)
  | memory (addr len : ℕ)
  | breakpoint (p : Debug.BreakpointPacket)
  | step
  | cont

def Request.text : Request → List Char
  | .register n => Debug.readRequest n
  | .memory addr len => Debug.memoryRequest addr len
  | .breakpoint p => p.text
  | .step => ['s']
  | .cont => ['c']

structure Debuggee (T : CpuType) where
  hart : Isa.State T.xlen
  array : ℕ → BitVec 8
  breakpoints : Finset (BitVec 32)

namespace Debuggee

variable (t : Debuggee T)

/-- A register, or the PC by its number. -/
def register (n : ℕ) : BitVec T.xlen := if n < 32 then t.hart.x (BitVec.ofNat 5 n) else t.hart.pc

/-- The array with bytes of the memory at its start. -/
def arrayWith (addr len i : ℕ) : BitVec 8 :=
  if i < len then t.hart.mem (addr + i) else t.array i

/-- The next instruction is at a breakpoint. -/
def BreaksAt (breakpoints : Finset (BitVec 32)) (a : Isa.State T.xlen) : Prop :=
  a.pc.setWidth 32 ∈ breakpoints

instance BreaksAt.decidable (breakpoints : Finset (BitVec 32)) (a : Isa.State T.xlen) :
    Decidable (BreaksAt breakpoints a) := inferInstanceAs (Decidable (_ ∈ _))

/-- A step that does not come to a breakpoint. -/
structure Passes (breakpoints : Finset (BitVec 32)) (a : Isa.State T.xlen) (f : Fetched) : Prop
    extends Supported a f where
  passes : ∀ u, Machine.next a f = some u → ¬BreaksAt breakpoints u

/-- What is replied to a request, and the target after it. -/
inductive Answers : Debuggee T → Request → List Char → Debuggee T → Prop
  | register {t : Debuggee T} {n : ℕ} (hn : n ≤ 32) :
      Answers t (.register n) (Debug.targetDigits (Debug.shown (t.register n))) t
  | memory {t : Debuggee T} {addr len : ℕ} (ha : addr < Memory.SIZE)
      (h : addr + len ≤ Memory.SIZE) (hl : len ≤ 128) :
      Answers t (.memory addr len) (text ((List.range 128).map (t.arrayWith addr len)))
        { t with array := t.arrayWith addr len }
  | breakpoint {t : Debuggee T} (p : Debug.BreakpointPacket) :
      Answers t (.breakpoint p) p.reply { t with breakpoints := p.perform t.breakpoints }
  | step {t : Debuggee T} {f : Fetched} {u : Isa.State T.xlen} (hf : Supported t.hart f)
      (hu : Machine.next t.hart f = some u) :
      Answers t .step (if BreaksAt t.breakpoints u then "S03".toList else "S05".toList)
        { t with hart := u }
  | cont {t : Debuggee T} {fs : List Fetched} {f : Fetched} {v u : Isa.State T.xlen}
      (hr : Run Machine.next (Passes t.breakpoints) t.hart fs v) (hf : Supported v f)
      (hu : Machine.next v f = some u) (hb : BreaksAt t.breakpoints u) :
      Answers t .cont "S05".toList { t with hart := u }

end Debuggee

open Debuggee

namespace Debug

variable {t t' : Debuggee T} {d : Debug T} {r : Request} {reply : List Char} {n addr len fuel : ℕ}
  {f : Fetched} {fs : List Fetched} {u v : Isa.State T.xlen}

/-! ## The requests -/

end Debug

end RiscvTlm
