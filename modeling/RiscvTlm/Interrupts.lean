import RiscvTlm.CpuThread

/-!
# Interrupts

Two properties of every run of the CPU thread. A notification is taken as soon as interrupts are
enabled, unless it arrived while `mip.MEIP` was still set: then no interrupt is ever taken again.
And a handler is not interrupted before its `MRET` as long as no notification is pending in a state
with `MIE` set and `MEIP` clear: no trap entry clears `MIE`, and `ECALL` sets it.
-/

namespace RiscvTlm

open Transitions

variable {T : CpuType} {s t : System T} {l l' l₀ l₁ l₂ : CpuThread T} {e : Event T}
  {tr : List (Event T)} {c : ℕ} {cause : ExceptionCause}

theorem held_mip : Held T Csr.MIP := fun _ _ => rfl

theorem held_mstatus : Held T Csr.MSTATUS := fun _ _ => rfl

theorem held_mepc : Held T Csr.MEPC := fun _ _ => rfl

/-! ## Conditions on the events -/

/-- The event is no step that writes the CSR `c`. -/
def Spares (c : ℕ) (l : CpuThread T) : Event T → Prop
  | .cpuStep => nextCsrWritten l.cpu ≠ some c
  | _ => True

/-- No notification arrives while `MEIP` is set. -/
def OutsideWindow (l : CpuThread T) : Event T → Prop
  | .callInterrupt _ => l.cpu.meip = false
  | _ => True

instance (c : ℕ) (l : CpuThread T) : (e : Event T) → Decidable (Spares c l e)
  | .cpuStep => inferInstanceAs (Decidable (_ ≠ _))
  | .cpuProcessIRQ _ | .callInterrupt _ | .wait _ => .isTrue trivial

instance (l : CpuThread T) : (e : Event T) → Decidable (OutsideWindow l e)
  | .callInterrupt _ => inferInstanceAs (Decidable (_ = _))
  | .cpuStep | .cpuProcessIRQ _ | .wait _ => .isTrue trivial

/-! ## No wedged interrupt -/

/-- A pending notification finds `MEIP` clear. -/
def CanDeliver (l : CpuThread T) : Prop := l.cpu.interrupt = true → l.cpu.meip = false

/-- A step that does not write `mip` leaves `MEIP` as it is. -/
theorem cpuStep_meip {b : Bool} (h : cpuStep.run s = .ok b t)
    (hs : nextCsrWritten s ≠ some Csr.MIP) : t.meip = s.meip :=
  congrArg (fun x => x.getLsbD 11) (cpuStep_csr h held_mip hs (.inr (by decide)))

/-- Without a notification in the window every event keeps the next one deliverable. -/
theorem canDeliver_next (h : CanDeliver l) (hs : Spares Csr.MIP l e) (hw : OutsideWindow l e)
    (hn : l.next e = some l') : CanDeliver l' := by
  cases step_of_next hn with
  | cpuStep hr =>
    intro hi
    rw [cpuStep_interrupt hr] at hi
    exact (cpuStep_meip hr hs).trans (h hi)
  | taken => intro hi; cases hi
  | delayed => exact h
  | down hi =>
    intro hi'
    rw [irqDown_interrupt, hi] at hi'
    cases hi'
  | callInterrupt => exact fun _ => hw
  | wait => exact h

/-- In every run in which the program never writes `mip` and no notification arrives while `MEIP` is
set, a pending notification is taken by the first call of `cpu_process_IRQ` with `MIE` set. -/
theorem interrupt_not_wedged (memory : Memory) (PC : BitVec T.xlen) (host : Host)
    (h : Run CpuThread.next (fun l e => Spares Csr.MIP l e ∧ OutsideWindow l e)
      ⟨.step, reset memory PC host⟩ tr l) :
    ¬(l.cpu.interrupt = true ∧ l.cpu.mie = true ∧ l.cpu.meip = true) ∧
      (l.cpu.interrupt = true → l.cpu.mie = true →
        ∃ t, cpuProcessIRQ.run l.cpu = .ok true t) := by
  have hc : CanDeliver l :=
    h.invariant (fun _ _ _ hl hP hn => canDeliver_next hl hP.1 hP.2 hn) (fun hi => by cases hi)
  constructor
  · rintro ⟨hi, -, hm⟩
    rw [hc hi] at hm
    cases hm
  · intro hi hm
    rw [run_cpuProcessIRQ, if_pos hi, if_pos (by simp [hm, hc hi])]
    exact ⟨_, rfl⟩

/-- `csrrwi x0, mstatus, 8; jal x0, 0`. -/
def enableAndLoop : List (BitVec 32) := [0x30045073, 0x0000006F]

/-- A single notification is taken. -/
theorem interrupt_taken_once :
    ∃ l, Run CpuThread.next (fun l e => Spares Csr.MIP l e ∧ OutsideWindow l e)
        ⟨.step, start .RV32 enableAndLoop⟩
        [.cpuStep, .cpuProcessIRQ false, .callInterrupt 0x80000007, .cpuStep] l ∧
      ∃ t, cpuProcessIRQ.run l.cpu = .ok true t := by
  have h : (execute CpuThread.next (fun l e => Spares Csr.MIP l e ∧ OutsideWindow l e)
      ⟨.step, start .RV32 enableAndLoop⟩
      [.cpuStep, .cpuProcessIRQ false, .callInterrupt 0x80000007, .cpuStep]).any
        (fun l => l.cpu.interrupt && l.cpu.mie) = true := by decide
  obtain ⟨l, hr, hl⟩ := exists_run_of_execute h
  obtain ⟨hi, hm⟩ := Bool.and_eq_true_iff.mp hl
  exact ⟨l, hr, (interrupt_not_wedged (Memory.load enableAndLoop) 0 ⟨0, id, fun _ => 0⟩ hr).2 hi hm⟩

/-- A notification is pending while `MEIP` is set. -/
def Wedged (l : CpuThread T) : Prop := l.cpu.interrupt = true ∧ l.cpu.meip = true

/-- Once a notification has arrived while `MEIP` was set, no interrupt is ever taken again. -/
theorem wedged_forever (h : Run CpuThread.next (Spares Csr.MIP) l tr l') (hw : Wedged l) :
    Wedged l' ∧ .cpuProcessIRQ true ∉ tr := by
  have hstep (l : CpuThread T) (e : Event T) (l' : CpuThread T) (hl : Wedged l)
      (hs : Spares Csr.MIP l e) (hn : l.next e = some l') :
      Wedged l' ∧ e ≠ .cpuProcessIRQ true := by
    cases step_of_next hn with
    | cpuStep hr =>
      exact ⟨⟨(cpuStep_interrupt hr).trans hl.1, (cpuStep_meip hr hs).trans hl.2⟩, nofun⟩
    | taken hi hm hp => exact absurd (hl.2.symm.trans hp) nofun
    | delayed => exact ⟨hl, nofun⟩
    | down hi => exact absurd (hl.1.symm.trans hi) nofun
    | callInterrupt => exact ⟨⟨rfl, hl.2⟩, nofun⟩
    | wait => exact ⟨hl, nofun⟩
  have hI (l e l') (hl : Wedged l) (hs : Spares Csr.MIP l e) (hn : l.next e = some l') :=
    (hstep l e l' hl hs hn).1
  refine ⟨h.invariant hI hw, fun hm => ?_⟩
  exact h.forall_mem hI (fun l e l' hl hs hn => (hstep l e l' hl hs hn).2) hw _ hm rfl

/-- A second notification between the delivery of the first and the next call. -/
def secondNotification : List (Event .RV32) :=
  [.cpuStep, .cpuProcessIRQ false, .callInterrupt 0x80000007, .cpuStep, .cpuProcessIRQ true,
    .callInterrupt 0x80000007, .cpuStep]

/-- The second notification wedges the CPU, with interrupts enabled. -/
theorem interrupt_wedged :
    ∃ l, Run CpuThread.next (Spares Csr.MIP) ⟨.step, start .RV32 enableAndLoop⟩
        secondNotification l ∧
      l.point = .irq ∧ l.cpu.interrupt = true ∧ l.cpu.mie = true ∧ l.cpu.meip = true := by
  have h : (execute CpuThread.next (Spares Csr.MIP) ⟨.step, start .RV32 enableAndLoop⟩
      secondNotification).any (fun l =>
        l.point = .irq ∧ l.cpu.interrupt = true ∧ l.cpu.mie = true ∧ l.cpu.meip = true) = true := by
    decide
  simpa using exists_run_of_execute h

/-! ## No nested trap -/

/-- The event enters a trap: an exception of a step, or an interrupt. -/
def TrapEntry (l : CpuThread T) (e : Event T) (l' : CpuThread T) : Prop :=
  l.next e = some l' ∧
    (e = .cpuProcessIRQ true ∨
      e = .cpuStep ∧ ∃ cause, l'.cpu.exceptionLog = cause :: l.cpu.exceptionLog)

/-- `MIE` after the next step, if that does not write `mstatus`: `ECALL` sets it. -/
def nextMie (s : System T) : Bool := s.mie || nextException s = some .CALL_FROM_M_MODE

/-- `MEIP` after the next step, which may write `mip`. -/
def nextMeip (s : System T) : Bool :=
  match nextCsrWrite s with
  | some (Csr.MIP, v) => v.getLsbD 11
  | _ => s.meip

/-- A step taken while a notification is pending leaves `MIE` clear or `MEIP` set. -/
def Quiet (l : CpuThread T) : Event T → Prop
  | .cpuStep => l.cpu.interrupt = true → nextMie l.cpu = true → nextMeip l.cpu = true
  | _ => True

/-- The event is no step that raises an exception. -/
def NoException (l : CpuThread T) : Event T → Prop
  | .cpuStep => nextException l.cpu = none
  | _ => True

instance (l : CpuThread T) : (e : Event T) → Decidable (Quiet l e)
  | .cpuStep => inferInstanceAs (Decidable (_ → _))
  | .cpuProcessIRQ _ | .callInterrupt _ | .wait _ => .isTrue trivial

instance (l : CpuThread T) : (e : Event T) → Decidable (NoException l e)
  | .cpuStep => inferInstanceAs (Decidable (_ = _))
  | .cpuProcessIRQ _ | .callInterrupt _ | .wait _ => .isTrue trivial

/-- `ECALL` is the only exception whose number reaches `MIE`. -/
theorem code_getLsbD_three (cause : ExceptionCause) :
    cause.code.getLsbD 3 = decide (cause = .CALL_FROM_M_MODE) := by
  cases cause <;> rfl

/-- A step that does not write `mstatus` sets `MIE` only by `ECALL`. -/
theorem cpuStep_mie {b : Bool} (h : cpuStep.run s = .ok b t)
    (hs : nextCsrWritten s ≠ some Csr.MSTATUS) : t.mie = nextMie s := by
  cases hr : nextException s with
  | none =>
    have hm : nextMie s = s.mie := by simp [nextMie, hr]
    rw [hm]
    exact congrArg (fun x => x.getLsbD 3) (cpuStep_csr h held_mstatus hs (.inl hr))
  | some cause =>
    calc t.mie = (s.regs.csr Csr.MSTATUS ||| cause.code).getLsbD 3 :=
          congrArg (fun x => x.getLsbD 3) (cpuStep_raise h hr).2
      _ = (s.mie || cause.code.getLsbD 3) := BitVec.getLsbD_or
      _ = nextMie s := by rw [code_getLsbD_three]; simp [nextMie, hr]

theorem cpuStep_nextMeip {b : Bool} (h : cpuStep.run s = .ok b t) : t.meip = nextMeip s := by
  by_cases hw : ∃ v, nextCsrWrite s = some (Csr.MIP, v)
  · obtain ⟨v, hv⟩ := hw
    rw [System.meip, cpuStep_csrWrite h (by decide) hv, BitVec.getLsbD_setWidth, nextMeip, hv]
    rfl
  · have hx := cpuStep_csr_eq h held_mip (fun v hv => absurd ⟨v, hv⟩ hw) (.inr (by decide))
    have hn : nextMeip s = s.meip := by
      unfold nextMeip
      split
      next v hv => exact absurd ⟨v, hv⟩ hw
      next => rfl
    rw [hn]
    exact congrArg (fun x => x.getLsbD 11) hx

/-- `cpu_process_IRQ` would take an interrupt. -/
def Takes (l : CpuThread T) : Prop :=
  l.point = .irq ∧ l.cpu.interrupt = true ∧ l.cpu.mie = true ∧ l.cpu.meip = false

/-- A step is quiet exactly when the call after it takes no interrupt. -/
theorem quiet_iff {b : Bool} (h : cpuStep.run s = .ok b t)
    (hs : nextCsrWritten s ≠ some Csr.MSTATUS) :
    Quiet ⟨.step, s⟩ .cpuStep ↔ ¬Takes ⟨.irq, t⟩ := by
  simp [Quiet, Takes, cpuStep_interrupt h, cpuStep_mie h hs, cpuStep_nextMeip h]

/-- Such a call is the only event at that point. -/
theorem takes_next (hn : l.next e = some l') (hl : Takes l) : e = .cpuProcessIRQ true := by
  cases step_of_next hn with
  | taken => rfl
  | delayed hi hd => exact absurd ((hd hl.2.2.1).symm.trans hl.2.2.2) nofun
  | down hi => exact absurd (hl.2.1.symm.trans hi) nofun
  | cpuStep | callInterrupt | wait => exact absurd hl.1 nofun

/-- The first event of a run from the point before `cpu_process_IRQ`. -/
theorem takes_run {P : CpuThread T → Event T → Prop} (hr : Run CpuThread.next P l tr l')
    (hp : l'.point = .step) (hl : Takes l) : .cpuProcessIRQ true ∈ tr := by
  cases hr with
  | nil => exact absurd (hl.1.symm.trans hp) nofun
  | cons hP hn hr => exact takes_next hn hl ▸ List.mem_cons_self

/-- No event of a handler makes the next call take an interrupt, if its steps are quiet. -/
theorem not_takes_next (h : ¬Takes l) (hs : Spares Csr.MSTATUS l e) (hq : Quiet l e)
    (hn : l.next e = some l') : ¬Takes l' ∧ e ≠ .cpuProcessIRQ true := by
  cases step_of_next hn with
  | cpuStep hr => exact ⟨(quiet_iff hr hs).mp hq, nofun⟩
  | taken hi hm hp => exact absurd ⟨rfl, hi, hm, hp⟩ h
  | delayed | down | callInterrupt | wait => exact ⟨fun ht => absurd ht.1 nofun, nofun⟩

/-- The steps of a handler that takes no interrupt are quiet. -/
theorem quiet_run (hr : Run CpuThread.next (Spares Csr.MSTATUS) l tr l') (hp : l'.point = .step)
    (ht : .cpuProcessIRQ true ∉ tr) :
    Run CpuThread.next (fun l e => Spares Csr.MSTATUS l e ∧ Quiet l e) l tr l' := by
  induction hr with
  | nil l => exact .nil l
  | cons hs hn hr ih =>
    have ht' := fun hm => ht (List.mem_cons_of_mem _ hm)
    refine .cons ⟨hs, ?_⟩ hn (ih hp ht')
    cases step_of_next hn with
    | cpuStep hc => exact (quiet_iff hc hs).mpr fun hl => ht' (takes_run hr hp hl)
    | taken | delayed | down | callInterrupt | wait => trivial

/-- A trap entry is quiet exactly when the next call takes no interrupt. -/
theorem quiet_trapEntry_iff (he : TrapEntry l e l') : Quiet l e ↔ ¬Takes l' := by
  obtain ⟨hn, hx⟩ := he
  cases step_of_next hn with
  | cpuStep hr =>
    obtain ⟨cause, hl⟩ := (hx.resolve_left nofun).2
    have hs := nextCsrWritten_of_exception (nextException_of_log hr hl)
    exact quiet_iff hr (by simp [hs])
  | taken => exact ⟨fun _ ht => absurd ht.1 nofun, fun _ => trivial⟩
  | delayed | down | callInterrupt | wait => simp at hx

/-- The PC a trap entry saves. -/
theorem trapEntry_mepc (he : TrapEntry l e l') :
    l'.cpu.regs.csr Csr.MEPC = l.cpu.regs.registerPC.setWidth 32 := by
  obtain ⟨hn, hx⟩ := he
  cases step_of_next hn with
  | cpuStep hr =>
    obtain ⟨cause, hl⟩ := (hx.resolve_left nofun).2
    exact (cpuStep_raise hr (nextException_of_log hr hl)).1
  | taken => exact irqTaken_mepc
  | delayed | down | callInterrupt | wait => simp at hx

/-- An event that enters no trap leaves the CSRs other than `mip` to the program. -/
theorem csr_next (hc : Held T c) (hne : c ≠ Csr.MIP) (hs : Spares c l e) (hx : NoException l e)
    (ht : e ≠ .cpuProcessIRQ true) (hn : l.next e = some l') :
    l'.cpu.regs.csr c = l.cpu.regs.csr c := by
  cases step_of_next hn with
  | cpuStep hr => exact cpuStep_csr hr hc hs (.inl hx)
  | taken => exact absurd rfl ht
  | down => exact irqDown_csr hne
  | delayed | callInterrupt | wait => rfl

/-- In a handler that neither writes a CSR nor enters a trap, the CSR keeps its value. -/
theorem csr_run (hc : Held T c) (hne : c ≠ Csr.MIP)
    (hr : Run CpuThread.next (fun l e => Spares c l e ∧ NoException l e) l tr l')
    (ht : .cpuProcessIRQ true ∉ tr) : l'.cpu.regs.csr c = l.cpu.regs.csr c := by
  have hm : ∀ a ∈ tr, a ≠ .cpuProcessIRQ true := fun a ha h => ht (h ▸ ha)
  exact (hr.and_mem hm).invariant (I := fun l' => l'.cpu.regs.csr c = l.cpu.regs.csr c)
    (fun _ _ _ hl hP hn => (csr_next hc hne hP.1.1 hP.1.2 hP.2 hn).trans hl) rfl

/-- A handler that does not write `mstatus` and reaches no `MRET` is not interrupted exactly when
the trap entry and all its steps are quiet. Then `mepc` holds the PC of the trap as long as the
handler neither writes it nor raises an exception. -/
theorem no_nested_trap_iff (he : TrapEntry l₀ e l₁)
    (hr : Run CpuThread.next (Spares Csr.MSTATUS) l₁ tr l₂) (hp : l₂.point = .step) :
    (.cpuProcessIRQ true ∉ tr ↔
      Quiet l₀ e ∧
        Run CpuThread.next (fun l e => Spares Csr.MSTATUS l e ∧ Quiet l e) l₁ tr l₂) ∧
    (.cpuProcessIRQ true ∉ tr →
      Run CpuThread.next (fun l e => Spares Csr.MEPC l e ∧ NoException l e) l₁ tr l₂ →
        l₂.cpu.regs.csr Csr.MEPC = l₀.cpu.regs.registerPC.setWidth 32) := by
  refine ⟨⟨fun ht => ⟨?_, quiet_run hr hp ht⟩, fun hq hm => ?_⟩, fun ht hr' => ?_⟩
  · exact (quiet_trapEntry_iff he).mpr fun hl => ht (takes_run hr hp hl)
  · have hl := (quiet_trapEntry_iff he).mp hq.1
    exact hq.2.forall_mem (E := (· ≠ .cpuProcessIRQ true))
      (fun _ _ _ h hP hn => (not_takes_next h hP.1 hP.2 hn).1)
      (fun _ _ _ h hP hn => (not_takes_next h hP.1 hP.2 hn).2) hl _ hm rfl
  · rw [csr_run held_mepc (by decide) hr' ht, trapEntry_mepc he]

/-- `csrrwi x0, mtvec, 12; csrrwi x0, mstatus, 8; jal x0, 0`, and the handler `jal x0, 0`. -/
def enableAndHandle : List (BitVec 32) := [0x30565073, 0x30045073, 0x0000006F, 0x0000006F]

/-- The program enables interrupts, and a notification arrives. -/
def firstNotification : List (Event .RV32) :=
  [.cpuStep, .cpuProcessIRQ false, .cpuStep, .cpuProcessIRQ false, .callInterrupt 0x80000007,
    .cpuStep]

/-- A handler without a second notification is quiet. -/
theorem handler_not_interrupted :
    ∃ l₀ l₁ l₂, Run CpuThread.next (fun _ _ => True) ⟨.step, start .RV32 enableAndHandle⟩
        firstNotification l₀ ∧
      TrapEntry l₀ (.cpuProcessIRQ true) l₁ ∧
      Run CpuThread.next (fun l e => Spares Csr.MSTATUS l e ∧ Quiet l e) l₁
        [.cpuStep, .cpuProcessIRQ false] l₂ := by
  have h : (execute CpuThread.next (fun _ _ => True) ⟨.step, start .RV32 enableAndHandle⟩
      firstNotification).any (fun l₀ => (l₀.next (.cpuProcessIRQ true)).any fun l₁ =>
        (execute CpuThread.next (Spares Csr.MSTATUS) l₁ [.cpuStep, .cpuProcessIRQ false]).any
          fun l₂ => l₂.point = .step) = true := by decide
  obtain ⟨l₀, hr₀, h₀⟩ := exists_run_of_execute h
  obtain ⟨l₁, hn, h₁⟩ := (Option.any_eq_true _ _).mp h₀
  obtain ⟨l₂, hr, hp⟩ := exists_run_of_execute h₁
  have he : TrapEntry l₀ (.cpuProcessIRQ true) l₁ := ⟨hn, .inl rfl⟩
  exact ⟨l₀, l₁, l₂, hr₀, he,
    ((no_nested_trap_iff he hr (of_decide_eq_true hp)).1.mp (by simp)).2⟩

/-- A second notification interrupts the handler and replaces the saved PC. -/
theorem handler_interrupted :
    ∃ l₀ l₁ l₂, Run CpuThread.next (fun _ _ => True) ⟨.step, start .RV32 enableAndHandle⟩
        firstNotification l₀ ∧
      TrapEntry l₀ (.cpuProcessIRQ true) l₁ ∧
      Run CpuThread.next (Spares Csr.MSTATUS) l₁
        [.cpuStep, .cpuProcessIRQ false, .callInterrupt 0x80000007, .cpuStep,
          .cpuProcessIRQ true] l₂ ∧
      l₂.cpu.regs.csr Csr.MEPC ≠ l₁.cpu.regs.csr Csr.MEPC := by
  have h : (execute CpuThread.next (fun _ _ => True) ⟨.step, start .RV32 enableAndHandle⟩
      firstNotification).any (fun l₀ => (l₀.next (.cpuProcessIRQ true)).any fun l₁ =>
        (execute CpuThread.next (Spares Csr.MSTATUS) l₁ [.cpuStep, .cpuProcessIRQ false,
          .callInterrupt 0x80000007, .cpuStep, .cpuProcessIRQ true]).any
          fun l₂ => l₂.cpu.regs.csr Csr.MEPC ≠ l₁.cpu.regs.csr Csr.MEPC) = true := by decide
  obtain ⟨l₀, hr₀, h₀⟩ := exists_run_of_execute h
  obtain ⟨l₁, hn, h₁⟩ := (Option.any_eq_true _ _).mp h₀
  obtain ⟨l₂, hr, hne⟩ := exists_run_of_execute h₁
  exact ⟨l₀, l₁, l₂, hr₀, ⟨hn, .inl rfl⟩, hr, of_decide_eq_true hne⟩

end RiscvTlm
