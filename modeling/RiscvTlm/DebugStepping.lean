import RiscvTlm.DebugRequests
import RiscvTlm.InterruptCause
import RiscvTlm.FetchPaths

/-!
# Stepping in the debugger

Both loops of the debugger call `CPU_step` and leave out the `cpu_process_IRQ` that the CPU thread
calls after it. A step does not look at the interrupt lines, so that a debugged program follows the
free one exactly as long as no call of `cpu_process_IRQ` there has anything to do.
-/

namespace RiscvTlm

open Prog Transitions

variable {T : CpuType} {s s' t u : System T} {d d' : Debug T}

/-! ## What a step does not look at -/

/-- The state without the interrupt lines. -/
def System.core (s : System T) : System T :=
  { s with
    interrupt := false
    irqAlreadyDown := false
    intCause := 0 }

theorem eq_of_core (h : s.core = t.core) : t = { s with
    interrupt := t.interrupt
    irqAlreadyDown := t.irqAlreadyDown
    intCause := t.intCause } := by
  cases s
  cases t
  cases h
  rfl

/-- An instruction does not touch the interrupt lines. -/
def coreRelation (T : CpuType) : StateRelation T where
  rel s t := s.core = t.core
  anyPC := True
  regs {s t} h := show s.core.regs = t.core.regs by rw [h]
  bus {s t} h := show s.core.bus = t.core.bus by rw [h]
  tlb {s t} h := show s.core.tlbAEntries = t.core.tlbAEntries by rw [h]
  host {s t} h := show s.core.host = t.core.host by rw [h]
  pc _ := .inl trivial
  setRegs {s t} h regs _ :=
    show { s.core with regs := regs } = { t.core with regs := regs } by rw [h]
  setBus {s t} h bus _ :=
    show { s.core with bus := bus } = { t.core with bus := bus } by rw [h]
  setTlb {s t} h tlb :=
    show { s.core with tlbAEntries := tlb } = { t.core with tlbAEntries := tlb } by rw [h]
  log {s t} h cause := show { s.core with exceptionLog := cause :: s.core.exceptionLog } =
    { t.core with exceptionLog := cause :: t.core.exceptionLog } by rw [h]

theorem respects_fetchDmi : Respects (coreRelation T).rel fetchDmi := by
  intro s t h
  rw [eq_of_core h, run_fetchDmi, run_fetchDmi]
  dsimp only
  split
  · exact .ok _ rfl
  · exact .error _ rfl

theorem respects_fetchBus : Respects (coreRelation T).rel fetchBus := by
  intro s t h
  rw [eq_of_core h]
  generalize t.interrupt = interrupt
  generalize t.irqAlreadyDown = irqAlreadyDown
  generalize t.intCause = intCause
  cases hb : BusCtrl.bTransport s.bus s.host (fetchTrans s) with
  | error e =>
    have ht : fetchBus.run { s with
        interrupt := interrupt
        irqAlreadyDown := irqAlreadyDown
        intCause := intCause } = .error e _ := run_fetchBus_of_error hb
    rw [run_fetchBus_of_error hb, ht]
    exact .error _ rfl
  | ok r =>
    have ht : fetchBus.run { s with
        interrupt := interrupt
        irqAlreadyDown := irqAlreadyDown
        intCause := intCause } = _ := run_fetchBus_of_ok hb
    rw [run_fetchBus_of_ok hb, ht]
    split
    · exact .error _ rfl
    · refine .ok _ ?_
      split <;> rfl

theorem respects_fetch : Respects (coreRelation T).rel fetch := by
  have hINSTR : Respects (coreRelation T).rel (do return (← get).INSTR : Sim T (BitVec 32)) := by
    refine .get_bind fun s t h => ?_
    have hI : t.INSTR = s.INSTR := show t.core.INSTR = s.core.INSTR by rw [h]
    rw [hI]
    exact .ok _ h
  refine .get_bind fun s t h => ?_
  have hv : t.dmiPtrValid = s.dmiPtrValid :=
    show t.core.dmiPtrValid = s.core.dmiPtrValid by rw [h]
  rw [hv]
  exact Respects.ite (fun _ => .bind respects_fetchDmi fun _ => hINSTR)
    (fun _ => .bind respects_fetchBus fun _ => hINSTR) s t h

/-- A step returns the same from states that differ in the interrupt lines only. -/
theorem respects_cpuStep : Respects (coreRelation T).rel cpuStep :=
  .bind respects_fetch fun _ => respects_execDecoded (coreRelation T) (.inl trivial)

/-! ## A call of `cpu_process_IRQ` -/

/-- The state after `cpu_process_IRQ`. -/
def processed (s : System T) : System T := endState (cpuProcessIRQ.run s)

/-- `cpu_process_IRQ` has nothing to do: with a notification pending interrupts are disabled or
`MEIP` is set, and without one `MEIP` has been cleared before or is clear. -/
def IrqIdle (s : System T) : Prop :=
  if s.interrupt then s.mie = true → s.meip = true
  else s.irqAlreadyDown = true ∨ s.meip = false

instance (s : System T) : Decidable (IrqIdle s) := inferInstanceAs (Decidable (ite _ _ _))

theorem processed_eq (s : System T) :
    processed s =
      if s.interrupt then if s.mie ∧ ¬s.meip then irqTaken s else s else irqDown s := by
  unfold processed
  rw [run_cpuProcessIRQ]
  split
  · split <;> rfl
  · rfl

/-- `mip` after a call without a notification. -/
theorem irqDown_mip (hd : s.irqAlreadyDown = false) :
    (irqDown s).regs.csr Csr.MIP = s.regs.csr Csr.MIP &&& ~~~MIP_MEIP 32 := by
  have h : (irqDown s).regs.csr Csr.MIP =
      (s.regs.getCSR s.host Csr.MIP &&& ~~~MIP_MEIP T.xlen).setWidth 32 := by
    simp [irqDown, hd, Registers.setCSR_csr_apply]
  rw [h, held_mip, BitVec.setWidth_and, CpuType.setWidth_setWidth]
  cases T <;> rfl

/-- Clearing `MEIP` changes nothing exactly when it is clear. -/
theorem and_not_meip_eq_iff (x : BitVec 32) :
    x &&& ~~~MIP_MEIP 32 = x ↔ x.getLsbD 11 = false := by
  constructor
  · intro h
    rw [← h, BitVec.getLsbD_and]
    exact Bool.and_false _
  · intro h
    refine BitVec.eq_of_getLsbD_eq fun i hi => ?_
    have hm : (MIP_MEIP 32).getLsbD i = decide (11 = i) := by
      show (BitVec.twoPow 32 11).getLsbD i = _
      rw [BitVec.getLsbD_twoPow]
      simp
    rw [BitVec.getLsbD_and, BitVec.getLsbD_not, decide_eq_true hi, hm, Bool.true_and]
    by_cases hi' : 11 = i
    · rw [← hi', h, Bool.false_and]
    · rw [decide_eq_false hi', Bool.not_false, Bool.and_true]

theorem irqDown_regs (hd : s.irqAlreadyDown = false) (hm : s.meip = false) :
    (irqDown s).regs = s.regs := by
  have hmip := irqDown_mip hd
  rw [(and_not_meip_eq_iff _).mpr hm] at hmip
  have hcsr : (irqDown s).regs.csr = s.regs.csr := by
    funext c
    by_cases hc : c = Csr.MIP
    · rw [hc, hmip]
    · exact irqDown_csr hc
  have hrest : (irqDown s).regs = { s.regs with csr := (irqDown s).regs.csr } := by
    unfold irqDown
    rw [hd]
    rfl
  rw [hrest, hcsr]

theorem irqDown_core (h : s.irqAlreadyDown = true ∨ s.meip = false) :
    (irqDown s).core = s.core := by
  cases hd : s.irqAlreadyDown with
  | true =>
    unfold irqDown
    rw [if_pos hd]
  | false =>
    have hm : s.meip = false := h.resolve_left (by rw [hd]; decide)
    have hcore : (irqDown s).core = { s.core with regs := (irqDown s).regs } := by
      unfold irqDown
      rw [hd]
      rfl
    rw [hcore, irqDown_regs hd hm]
    rfl

theorem processed_core (h : IrqIdle s) : (processed s).core = s.core := by
  unfold IrqIdle at h
  rw [processed_eq]
  split at h
  next hi =>
    rw [if_pos hi]
    split
    next ht => exact absurd (h ht.1) ht.2
    next => rfl
  next hi =>
    rw [if_neg hi]
    exact irqDown_core h

/-- A call that is not idle shows in `mip`. -/
theorem processed_mip_ne (h : ¬IrqIdle s) :
    (processed s).regs.csr Csr.MIP ≠ s.regs.csr Csr.MIP := by
  unfold IrqIdle at h
  rw [processed_eq]
  split at h
  next hi =>
    obtain ⟨hm, hp⟩ := Classical.not_imp.mp h
    rw [if_pos hi, if_pos ⟨hm, hp⟩, irqTaken_mip]
    intro he
    have hb : s.meip = true := by
      rw [System.meip, ← he, BitVec.getLsbD_or]
      exact Bool.or_true _
    exact hp hb
  next hi =>
    obtain ⟨hd, hp⟩ := not_or.mp h
    rw [if_neg hi, irqDown_mip (Bool.not_eq_true _ ▸ hd)]
    intro he
    exact hp ((and_not_meip_eq_iff _).mp he)

/-! ## The debugger beside the thread -/

/-- The two ways of the debugger to step. -/
inductive Stepping
  | s
  | c
  deriving DecidableEq, Repr

namespace Debug

/-- A step: a packet `s`, or a turn of the loop of `c`. -/
def turn (d : Debug T) : Stepping → Option (Debug T)
  | .s =>
    match d.handleGdbLoop 0 [some "$s#73".toList] with
    | .ok (some (d, _)) => some d
    | _ => none
  | .c =>
    match d.continueTurn with
    | .ok (d, _) => some d
    | .error _ => none

/-- What an event of the thread is to the debugger: it steps, receives the same notifications at the
same times, and does not call `cpu_process_IRQ`. -/
def next (k : Stepping) (d : Debug T) : Event T → Option (Debug T)
  | .cpuStep => d.turn k
  | .cpuProcessIRQ _ => some d
  | .callInterrupt cause => some { d with cpu := callInterrupt cause d.cpu }
  | .wait host => some { d with cpu := { d.cpu with host := host } }

/-- After every iteration of the loop of the thread, the debugger has come as far with the same
registers, PC, CSRs and memory. -/
def FollowsFree (k : Stepping) (d : Debug T) (l₀ : CpuThread T) (tr : List (Event T)) : Prop :=
  ∀ tr₁ tr₂ l, tr = tr₁ ++ tr₂ → Run CpuThread.next (fun _ _ => True) l₀ tr₁ l →
    l.point = .step → ∃ d', Run (next k) (fun _ _ => True) d tr₁ d' ∧
      d'.cpu.regs = l.cpu.regs ∧ d'.cpu.bus.memory = l.cpu.bus.memory

end Debug

/-- Nothing to do for an event that is a call of `cpu_process_IRQ`. -/
def CallIdle (l : CpuThread T) : Event T → Prop
  | .cpuProcessIRQ _ => IrqIdle l.cpu
  | _ => True

instance (l : CpuThread T) : (e : Event T) → Decidable (CallIdle l e)
  | .cpuProcessIRQ _ => inferInstanceAs (Decidable (IrqIdle _))
  | .cpuStep | .callInterrupt _ | .wait _ => .isTrue trivial

namespace Debug

/-- The message `s`. -/
theorem handleMessage_s (fuel : ℕ) (d : Debug T) :
    handleMessage fuel d ['s'] = some <$> d.singleStep := by
  simp [handleMessage]

theorem callStep_ok {b : Bool} {cpu : System T} (h : cpuStep.run d.cpu = .ok b cpu) :
    d.callStep = .ok ({ d with cpu := cpu }, b) := by
  unfold callStep
  rw [h]

/-- The reply to a step fits into the buffer. -/
theorem singleStep_ok {b : Bool} {cpu : System T} (h : cpuStep.run d.cpu = .ok b cpu) :
    ∃ reply, d.singleStep = .ok (answer { d with cpu := cpu } reply) ∧
      ∀ iobuf, ∃ r, sendPacket iobuf reply = .ok r := by
  refine ⟨if atBreakpoint { d with cpu := cpu } then "S03".toList else "S05".toList, ?_,
    fun iobuf => ?_⟩
  · unfold singleStep
    rw [callStep_ok h]
    rfl
  · split
    · exact sendPacket_fits iobuf (by decide)
    · exact sendPacket_fits iobuf (by decide)

/-- Either way a step calls `CPU_step` once. -/
theorem turn_eq {b : Bool} {cpu : System T} (k : Stepping) (h : cpuStep.run d.cpu = .ok b cpu) :
    ∃ d', d.turn k = some d' ∧ d'.cpu = cpu := by
  cases k with
  | s =>
    have hchars : "$s#73".toList = [] ++ '$' :: (['s'] ++ '#' :: ['7', '3']) := rfl
    have hr : receivePacket d.iobuf (some "$s#73".toList) =
        .ok (d.iobuf.write "$s#73".toList, ['s']) := by
      rw [hchars]
      exact receivePacket_onePacket d.iobuf (by decide) (by decide) (by decide) (by decide)
    obtain ⟨reply, hs, hsend⟩ :=
      singleStep_ok (d := { d with iobuf := d.iobuf.write "$s#73".toList }) h
    obtain ⟨⟨iobuf, frame⟩, hf⟩ := hsend (d.iobuf.write "$s#73".toList)
    have hm : handleMessage 0 { d with iobuf := d.iobuf.write "$s#73".toList } ['s'] =
        .ok (some (answer { d with
          cpu := cpu
          iobuf := d.iobuf.write "$s#73".toList } reply)) := by
      rw [handleMessage_s, hs]
      rfl
    unfold turn
    rw [handleGdbLoop_answer hr hm hf rfl]
    exact ⟨_, rfl, rfl⟩
  | c =>
    unfold turn continueTurn
    rw [callStep_ok h]
    exact ⟨_, rfl, rfl⟩

theorem next_cpuProcessIRQ {l l' : CpuThread T} {b : Bool}
    (h : l.next (.cpuProcessIRQ b) = some l') : l'.point = .step ∧ l'.cpu = processed l.cpu := by
  cases step_of_next h with
  | taken hi hm hp =>
    refine ⟨rfl, ?_⟩
    rw [processed_eq, if_pos hi, if_pos ⟨hm, by rw [hp]; decide⟩]
  | delayed hi hd =>
    refine ⟨rfl, ?_⟩
    rw [processed_eq, if_pos hi, if_neg fun ht => ht.2 (hd ht.1)]
  | down hi =>
    refine ⟨rfl, ?_⟩
    rw [processed_eq, if_neg (by rw [hi]; decide)]

/-- The debugger answers an event of the thread with what the thread does, but for the call of
`cpu_process_IRQ`. -/
theorem next_core (k : Stepping) {l l' : CpuThread T} {e : Event T} (hl : l.next e = some l')
    (hc : d.cpu.core = l.cpu.core) :
    ∃ d', d.next k e = some d' ∧ (CallIdle l e → d'.cpu.core = l'.cpu.core) := by
  cases e with
  | cpuStep =>
    cases step_of_next hl with
    | cpuStep hs =>
      have hrel := respects_cpuStep _ _ hc
      rw [hs] at hrel
      obtain ⟨cpu, hcpu, hcore⟩ := hrel.eq_ok
      obtain ⟨d', hd', rfl⟩ := turn_eq k hcpu
      exact ⟨d', hd', fun _ => hcore⟩
  | cpuProcessIRQ b =>
    refine ⟨d, rfl, fun hi => ?_⟩
    rw [(next_cpuProcessIRQ hl).2, processed_core hi]
    exact hc
  | callInterrupt cause =>
    cases step_of_next hl
    exact ⟨_, rfl, fun _ => hc⟩
  | wait host =>
    cases step_of_next hl
    exact ⟨_, rfl, fun _ => congrArg (fun s : System T => { s with host := host }) hc⟩

/-! ## Runs -/

section Runs

variable {k : Stepping} {l l' l₀ : CpuThread T} {e : Event T} {tr : List (Event T)}

theorem followsFree_nil (hc : d.cpu.core = l.cpu.core) : FollowsFree k d l [] := by
  intro tr₁ tr₂ l₁ he hr _
  obtain ⟨rfl, -⟩ := List.append_eq_nil_iff.mp he.symm
  cases hr
  exact ⟨d, .nil d, (coreRelation T).regs hc, congrArg Bus.memory ((coreRelation T).bus hc)⟩

/-- After the first event the rest of the run is to be followed. -/
theorem followsFree_cons (hc : d.cpu.core = l.cpu.core) (hl : l.next e = some l')
    (hd : d.next k e = some d') : FollowsFree k d l (e :: tr) ↔ FollowsFree k d' l' tr := by
  constructor
  · intro h tr₁ tr₂ l₁ he hr hp
    obtain ⟨d₁, hd₁, hsame⟩ := h (e :: tr₁) tr₂ l₁ (by rw [he]; rfl) (.cons trivial hl hr) hp
    cases hd₁ with
    | cons _ hd' hd₁ =>
      obtain rfl := Option.some_inj.mp (hd.symm.trans hd')
      exact ⟨d₁, hd₁, hsame⟩
  · intro h tr₁ tr₂ l₁ he hr hp
    cases hr with
    | nil => exact followsFree_nil hc [] [] l rfl (.nil l) hp
    | cons _ hl' hr =>
      obtain ⟨rfl, htr⟩ := List.cons.inj he
      obtain rfl := Option.some_inj.mp (hl.symm.trans hl')
      obtain ⟨d₁, hd₁, hsame⟩ := h _ tr₂ l₁ htr hr hp
      exact ⟨d₁, .cons trivial hd hd₁, hsame⟩

/-- A call that is not idle is not followed. -/
theorem not_followsFree (hc : d.cpu.core = l.cpu.core) (hl : l.next e = some l')
    (hi : ¬CallIdle l e) : ¬FollowsFree k d l (e :: tr) := by
  intro h
  cases e with
  | cpuProcessIRQ b =>
    obtain ⟨hp, hcpu⟩ := next_cpuProcessIRQ hl
    obtain ⟨d₁, hd₁, hregs, -⟩ :=
      h [.cpuProcessIRQ b] tr l' rfl (.cons trivial hl (.nil l')) hp
    cases hd₁ with
    | cons _ hd hr =>
      cases hd
      cases hr
      refine processed_mip_ne hi ?_
      rw [← hcpu, ← hregs, (coreRelation T).regs hc]
  | cpuStep | callInterrupt | wait => exact hi trivial

theorem followsFree_iff_of_core (hr : Run CpuThread.next (fun _ _ => True) l₀ tr l)
    (hc : d.cpu.core = l₀.cpu.core) :
    FollowsFree k d l₀ tr ↔ Run CpuThread.next CallIdle l₀ tr l := by
  induction hr generalizing d with
  | nil l => exact ⟨fun _ => .nil l, fun _ => followsFree_nil hc⟩
  | @cons l l' l₁ e tr _ hl hr ih =>
    obtain ⟨d', hd, hcore⟩ := next_core k hl hc
    by_cases hi : CallIdle l e
    · rw [followsFree_cons hc hl hd, ih (hcore hi)]
      refine ⟨.cons hi hl, fun h => ?_⟩
      cases h with
      | cons _ hl' h =>
        obtain rfl := Option.some_inj.mp (hl.symm.trans hl')
        exact h
    · refine ⟨fun h => absurd h (not_followsFree hc hl hi), fun h => ?_⟩
      cases h with
      | cons hi' => exact absurd hi' hi

/-- A taken interrupt is work for the call. -/
theorem not_callIdle_taken (h : l.next (.cpuProcessIRQ true) = some l') :
    ¬CallIdle l (.cpuProcessIRQ true) := by
  cases step_of_next h with
  | taken hi hm hp =>
    intro hidle
    unfold CallIdle IrqIdle at hidle
    rw [if_pos hi, hm, hp] at hidle
    exact absurd (hidle rfl) (by decide)

/-- A run that the debugger follows takes no interrupt. -/
theorem not_mem_taken (h : Run CpuThread.next CallIdle l₀ tr l) : .cpuProcessIRQ true ∉ tr := by
  intro hm
  refine h.forall_mem (I := fun _ => True) (E := (· ≠ .cpuProcessIRQ true))
    (fun _ _ _ _ _ _ => trivial) (fun l e l' _ hidle hl he => ?_) trivial _ hm rfl
  rw [he] at hidle hl
  exact not_callIdle_taken hl hidle

/-- From any state the debugger follows a run of the free CPU exactly when no call of
`cpu_process_IRQ` in it has anything to do. -/
theorem followsFree_iff (k : Stepping) (d : Debug T)
    (hr : Run CpuThread.next (fun _ _ => True) ⟨.step, d.cpu⟩ tr l) :
    FollowsFree k d ⟨.step, d.cpu⟩ tr ↔ Run CpuThread.next CallIdle ⟨.step, d.cpu⟩ tr l :=
  followsFree_iff_of_core hr rfl

/-- A debugger that has just been connected to a CPU. -/
def connected (cpu : System T) : Debug T := ⟨cpu, .zero, fun _ => 0, ∅⟩

/-- An endless loop with interrupts disabled, and a notification. -/
theorem followsFree_disabled :
    FollowsFree .s (connected (start .RV32 [0x0000006F])) ⟨.step, start .RV32 [0x0000006F]⟩
      [.callInterrupt 0x80000007, .cpuStep, .cpuProcessIRQ false,
        .wait ⟨10000, id, fun _ => 0⟩] := by
  have h : (execute CpuThread.next CallIdle ⟨.step, start .RV32 [0x0000006F]⟩
      [.callInterrupt 0x80000007, .cpuStep, .cpuProcessIRQ false,
        .wait ⟨10000, id, fun _ => 0⟩]).any (fun _ => true) = true := by decide
  obtain ⟨l, hr, -⟩ := exists_run_of_execute h
  exact (followsFree_iff .s (connected (start .RV32 [0x0000006F]))
    (hr.mono fun _ _ _ => trivial)).mpr hr

/-- The free CPU takes the interrupt of the notification, and the debugger does not. -/
theorem not_followsFree_taken :
    ∃ l, Run CpuThread.next (fun _ _ => True) ⟨.step, start .RV32 enableAndLoop⟩
        [.cpuStep, .cpuProcessIRQ false, .callInterrupt 0x80000007, .cpuStep, .cpuProcessIRQ true]
        l ∧
      ∀ k, ¬FollowsFree k (connected (start .RV32 enableAndLoop))
        ⟨.step, start .RV32 enableAndLoop⟩
        [.cpuStep, .cpuProcessIRQ false, .callInterrupt 0x80000007, .cpuStep,
          .cpuProcessIRQ true] := by
  have hr : Run CpuThread.next (fun _ _ => True) ⟨.step, start .RV32 enableAndLoop⟩
      [.cpuStep, .cpuProcessIRQ false, .callInterrupt 0x80000007, .cpuStep,
        .cpuProcessIRQ true] _ :=
    .cons trivial rfl (.cons trivial rfl (.cons trivial rfl (.cons trivial rfl
      (.cons trivial rfl (.nil _)))))
  refine ⟨_, hr, fun k h => ?_⟩
  have hidle := (followsFree_iff_of_core (d := connected (start .RV32 enableAndLoop)) hr rfl).mp h
  exact not_mem_taken hidle (by simp)

end Runs

end Debug

end RiscvTlm
