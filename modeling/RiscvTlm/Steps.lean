import RiscvTlm.Lib.Prog
import RiscvTlm.Cpu

/-!
# Runs of the parts of a step

What each primitive does when it is run, as simp lemmas: a register or CSR read returns without
changing the state, a write returns the changed state. With `EStateM.run_bind` they run an `exec`
function down to its memory accesses.
-/

namespace RiscvTlm

open Prog ExtensionBase

variable {T : CpuType} {s t : System T}

/-! ## Register numbers -/

theorem getRd_lt (w : BitVec 32) : getRd w < 32 := by
  rw [getRd, BitField.toNat_range _ (by decide)]
  omega

theorem getRs2_lt (w : BitVec 32) : getRs2 w < 32 := by
  rw [getRs2, BitField.toNat_range _ (by decide)]
  omega

/-! ## Primitives -/

section Primitives

variable (s) (n c : ℕ) (v : BitVec T.xlen)

@[simp] theorem run_getValue : (getValue n).run s = .ok (s.regs.getValue n) s := rfl

@[simp] theorem run_setValue :
    (setValue n v).run s = .ok () { s with regs := s.regs.setValue n v } := rfl

@[simp] theorem run_getPC : getPC.run s = .ok s.regs.registerPC s := rfl

@[simp] theorem run_setPC : (setPC v).run s = .ok () { s with regs := s.regs.setPC v } := rfl

@[simp] theorem run_incPC : incPC.run s = .ok () { s with regs := s.regs.incPC } := rfl

@[simp] theorem run_incPCby2 : incPCby2.run s = .ok () { s with regs := s.regs.incPCby2 } := rfl

@[simp] theorem run_getCSR : (getCSR c).run s = .ok (s.regs.getCSR s.host c) s := rfl

@[simp] theorem run_setCSR :
    (setCSR c v).run s = .ok () { s with regs := s.regs.setCSR c v } := rfl

@[simp] theorem run_scStop :
    scStop.run s = .ok () { s with bus := { s.bus with stopped := true } } := rfl

end Primitives

theorem run_bTransport {trans : Payload} {r : Bus × Payload}
    (h : BusCtrl.bTransport s.bus s.host trans = .ok r) :
    (bTransport trans).run s = .ok r.2 { s with bus := r.1 } := by
  rw [bTransport, run_get_bind, h]
  rfl

/-! ## Switch cases and the PC increment -/

section Switch

variable {x : Sim T Bool} {b bp : Bool} {w : BitVec 32}

theorem run_pcNext (h : x.run s = .ok b t) : (pcNext x).run s = .ok (true, false) t :=
  run_bind_ok h

theorem run_pcSet (h : x.run s = .ok b t) : (pcSet x).run s = .ok (false, false) t :=
  run_bind_ok h

theorem run_pcForward (h : x.run s = .ok b t) : (pcForward x).run s = .ok (b, false) t :=
  run_bind_ok h

theorem run_execDecoded_base {code : OpCodes}
    (h : (BaseIsa.execInstruction w code).run s = .ok (b, bp) t) :
    (execDecoded w (.base code)).run s =
      .ok bp (if b then { t with regs := t.regs.incPC } else t) := by
  rw [execDecoded, run_bind_ok h]
  cases b <;> rfl

theorem run_execDecoded_c {code : OpCCodes}
    (h : (CExtension.execInstruction w code).run s = .ok (b, bp) t) :
    (execDecoded w (.c code)).run s =
      .ok bp (if b then { t with regs := t.regs.incPCby2 } else t) := by
  rw [execDecoded, run_bind_ok h]
  cases b <;> rfl

theorem run_execDecoded_m {code : OpMCodes}
    (h : (MExtension.execInstruction w code).run s = .ok b t) :
    (execDecoded w (.m code)).run s =
      .ok false (if b then { t with regs := t.regs.incPC } else t) := by
  rw [execDecoded, run_bind_ok h]
  cases b <;> rfl

theorem run_execDecoded_a {code : OpACodes}
    (h : (AExtension.execInstruction w code).run s = .ok b t) :
    (execDecoded w (.a code)).run s =
      .ok false (if b then { t with regs := t.regs.incPC } else t) := by
  rw [execDecoded, run_bind_ok h]
  cases b <;> rfl

end Switch

/-- A step after its fetch. -/
theorem run_cpuStep {w : BitVec 32} (h : fetch.run s = .ok w t) :
    cpuStep.run s = (execDecoded w (decodeCascade T w)).run t := run_bind_ok h

end RiscvTlm
