import RiscvTlm.Lib.BitField
import RiscvTlm.Lib.Transitions
import RiscvTlm.CsrEffects

/-!
# The CPU thread

The loop of `CPU_thread`: `CPU_step`, then `cpu_process_IRQ`, then a wait during which the time
advances and `call_interrupt` may be called any number of times. `irqTaken` and `irqDown` are the
two ways `cpu_process_IRQ` changes the state, and `Step` lists what an event of the loop can do.
-/

namespace RiscvTlm

open Prog

variable {T : CpuType} {s t : System T} {c : ℕ}

/-! ## The interrupt bits -/

/-- `mstatus.MIE`. -/
def System.mie (s : System T) : Bool := (s.regs.csr Csr.MSTATUS).getLsbD 3

/-- `mip.MEIP`. -/
def System.meip (s : System T) : Bool := (s.regs.csr Csr.MIP).getLsbD 11

/-- A test of one bit of a CSR value. -/
theorem setWidth_and_bit_eq_zero_iff (x : BitVec 32) {i : ℕ} (hi : i < 32) :
    x.setWidth T.xlen &&& 1#T.xlen <<< i = 0#T.xlen ↔ x.getLsbD i = false := by
  have hw : i < T.xlen := hi.trans_le T.le_xlen
  have h := BitField.and_bit_eq_zero_iff (x.setWidth T.xlen) hw
  rwa [BitVec.getLsbD_setWidth, decide_eq_true hw, Bool.true_and] at h

theorem mie_eq_false_iff (s : System T) :
    s.regs.getCSR s.host Csr.MSTATUS &&& MSTATUS_MIE T.xlen = 0#T.xlen ↔ s.mie = false :=
  setWidth_and_bit_eq_zero_iff _ (by decide)

theorem meip_eq_false_iff (s : System T) :
    s.regs.getCSR s.host Csr.MIP &&& MIP_MEIP T.xlen = 0#T.xlen ↔ s.meip = false :=
  setWidth_and_bit_eq_zero_iff _ (by decide)

/-! ## What `cpu_process_IRQ` does -/

/-- The state after a taken interrupt. -/
def irqTaken (s : System T) : System T :=
  let regs := s.regs.setCSR Csr.MIP (s.regs.getCSR s.host Csr.MIP ||| MIP_MEIP T.xlen)
  let regs := (regs.setCSR Csr.MEPC regs.getPC).setCSR Csr.MCAUSE 0x80000000#T.xlen
  { s with
    regs := regs.setPC (regs.getCSR s.host Csr.MTVEC)
    interrupt := false
    irqAlreadyDown := false }

/-- The state after a call without a notification. -/
def irqDown (s : System T) : System T :=
  if s.irqAlreadyDown then s
  else
    { s with
      regs := s.regs.setCSR Csr.MIP (s.regs.getCSR s.host Csr.MIP &&& ~~~MIP_MEIP T.xlen)
      irqAlreadyDown := true }

/-- `cpu_process_IRQ` takes the interrupt, leaves the notification pending, or clears `MEIP`. -/
theorem run_cpuProcessIRQ (s : System T) :
    cpuProcessIRQ.run s =
      if s.interrupt then
        if s.mie ∧ ¬s.meip then .ok true (irqTaken s) else .ok false s
      else .ok false (irqDown s) := by
  rw [cpuProcessIRQ, run_get_bind]
  cases hi : s.interrupt with
  | false =>
    cases hd : s.irqAlreadyDown with
    | false => simp [-bind_pure_comp, hd, irqDown]
    | true => simp [-bind_pure_comp, hd, irqDown]
  | true =>
    rw [if_pos rfl, if_pos rfl, run_bind_ok (run_getCSR s _)]
    cases hm : s.mie with
    | false => simp [mie_eq_false_iff, hm]
    | true =>
      cases hp : s.meip with
      | true => simp [-bind_pure_comp, mie_eq_false_iff, meip_eq_false_iff, hm, hp]
      | false => simp [-bind_pure_comp, mie_eq_false_iff, meip_eq_false_iff, hm, hp, irqTaken]

theorem irqTaken_csr (hc : c ∉ [Csr.MIP, Csr.MEPC, Csr.MCAUSE]) :
    (irqTaken s).regs.csr c = s.regs.csr c := by
  simp only [List.mem_cons, List.not_mem_nil, or_false, not_or] at hc
  simp [irqTaken, Registers.setCSR_csr_apply, hc]

@[simp] theorem irqTaken_mepc :
    (irqTaken s).regs.csr Csr.MEPC = s.regs.registerPC.setWidth 32 := by
  simp [irqTaken, Registers.setCSR_csr_apply]

theorem irqDown_csr (hc : c ≠ Csr.MIP) : (irqDown s).regs.csr c = s.regs.csr c := by
  unfold irqDown
  split
  · rfl
  · exact Registers.setCSR_csr_ne _ _ _ _ hc

@[simp] theorem irqDown_interrupt : (irqDown s).interrupt = s.interrupt := by
  unfold irqDown
  split <;> rfl

@[simp] theorem irqDown_bus : (irqDown s).bus = s.bus := by
  unfold irqDown
  split <;> rfl

@[simp] theorem irqDown_host : (irqDown s).host = s.host := by
  unfold irqDown
  split <;> rfl

/-! ## The loop -/

/-- What `CPU_thread` calls next. -/
inductive Point
  | step
  | irq
  deriving DecidableEq, Repr

/-- The CPU and the point its thread has reached; the wait is at `step`. -/
structure CpuThread (T : CpuType) where
  point : Point
  cpu : System T

/-- An event of the loop: a call of the thread, a notification or the passing of time. -/
inductive Event (T : CpuType)
  | cpuStep
  | cpuProcessIRQ (taken : Bool)
  | callInterrupt (cause : BitVec T.xlen)
  | wait (host : Host)

/-- The loop. A step that does not return, or a call of `sc_stop`, ends it. -/
def CpuThread.next (l : CpuThread T) (e : Event T) : Option (CpuThread T) :=
  match l.point, e with
  | .step, .cpuStep =>
    if l.cpu.bus.stopped then none
    else
      match RiscvTlm.cpuStep.run l.cpu with
      | .ok _ s => some ⟨.irq, s⟩
      | .error .. => none
  | .irq, .cpuProcessIRQ taken =>
    match RiscvTlm.cpuProcessIRQ.run l.cpu with
    | .ok r s => if r = taken then some ⟨.step, s⟩ else none
    | .error .. => none
  | .step, .callInterrupt cause => some ⟨.step, RiscvTlm.callInterrupt cause l.cpu⟩
  | .step, .wait host => some ⟨.step, { l.cpu with host := host }⟩
  | _, _ => none

/-- The events of the loop, by what they do. -/
inductive Step : CpuThread T → Event T → CpuThread T → Prop
  | cpuStep {s t : System T} {b : Bool} (h : RiscvTlm.cpuStep.run s = .ok b t) :
      Step ⟨.step, s⟩ .cpuStep ⟨.irq, t⟩
  | taken {s : System T} (hi : s.interrupt = true) (hm : s.mie = true) (hp : s.meip = false) :
      Step ⟨.irq, s⟩ (.cpuProcessIRQ true) ⟨.step, irqTaken s⟩
  | delayed {s : System T} (hi : s.interrupt = true) (h : s.mie = true → s.meip = true) :
      Step ⟨.irq, s⟩ (.cpuProcessIRQ false) ⟨.step, s⟩
  | down {s : System T} (hi : s.interrupt = false) :
      Step ⟨.irq, s⟩ (.cpuProcessIRQ false) ⟨.step, irqDown s⟩
  | callInterrupt {s : System T} (cause : BitVec T.xlen) :
      Step ⟨.step, s⟩ (.callInterrupt cause) ⟨.step, RiscvTlm.callInterrupt cause s⟩
  | wait {s : System T} (host : Host) :
      Step ⟨.step, s⟩ (.wait host) ⟨.step, { s with host := host }⟩

theorem step_of_next {l l' : CpuThread T} {e : Event T} (h : l.next e = some l') :
    Step l e l' := by
  obtain ⟨point, s⟩ := l
  cases point <;> cases e <;> simp only [CpuThread.next, reduceCtorEq] at h
  case step.cpuStep =>
    split at h
    · cases h
    · split at h
      next hs =>
        cases h
        exact .cpuStep hs
      next => cases h
  case step.callInterrupt cause =>
    cases h
    exact .callInterrupt cause
  case step.wait host =>
    cases h
    exact .wait host
  case irq.cpuProcessIRQ taken =>
    rw [run_cpuProcessIRQ] at h
    cases hi : s.interrupt with
    | false =>
      simp only [hi, Bool.false_eq_true, if_false] at h
      obtain ⟨rfl, hl⟩ := Option.ite_none_right_eq_some.mp h
      cases hl
      exact .down hi
    | true =>
      cases hm : s.mie <;> cases hp : s.meip <;> simp [hi, hm, hp] at h
      case true.false =>
        obtain ⟨rfl, rfl⟩ := h
        exact .taken hi hm hp
      all_goals
        obtain ⟨rfl, rfl⟩ := h
        exact .delayed hi (by simp [hm, hp])

end RiscvTlm
