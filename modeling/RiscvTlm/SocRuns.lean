import RiscvTlm.ProgramRuns
import RiscvTlm.Soc

/-!
# Runs of the system

What holds of every run of the CPU and the timer under the scheduler, whatever the program does with
the timer. The CPU makes its turns ten units of time apart, so that the counters tell how many there
were; interrupts are not invented on the way from the timer to the trap; and there are at most five
events for each turn, so that a program that ends does so however the threads are scheduled.
-/

namespace RiscvTlm

open Isa Prog Transitions

variable {T : CpuType}

/-- A turn of the CPU. -/
def SocEvent.isTurn : SocEvent T → Bool
  | .turn _ => true
  | _ => false

namespace Soc

variable {s s' : Soc T} {e : SocEvent T} {tr tr' : List (SocEvent T)} {cpu : System T}
  {t n : ℕ} {taken : Bool}

/-! ## The components -/

theorem follows_thread (s : Soc T) : Follows s s.thread where
  point := rfl
  cpu := .mk (s := s.cpu) ⟨s.cpu.bus.timer.timerEvent, s.cpu.bus.trace.output,
    (List.append_nil _).symm, by rw [List.append_nil]⟩

/-- After `n` turns from the time `t` on, the next one is due at `t + 10 * n`, and time has not
passed it. A simulation that has stopped does so at the time of its last turn. -/
structure Timed (t n : ℕ) (s : Soc T) : Prop where
  wake : s.wake.toNat = t + 10 * n
  now_le : s.now.toNat ≤ s.wake.toNat
  wake_le : s.wake.toNat ≤ s.now.toNat + 10
  stopped : s.cpu.bus.stopped = true → s.wake.toNat = s.now.toNat + 10

theorem timed_start (h : cpu.bus.stopped = false) :
    Timed cpu.host.timeStamp.toNat 0 (start cpu) where
  wake := rfl
  now_le := le_rfl
  wake_le := Nat.le_add_right _ _
  stopped hs := by
    rw [start, h] at hs
    cases hs

theorem nextTime_le_wake : s.nextTime.toNat ≤ s.wake.toNat := by
  unfold nextTime
  split
  next d _ =>
    split
    next h => exact Nat.le_of_lt (BitVec.lt_def.mp h)
    next => exact le_rfl
  next => exact le_rfl

theorem timed_of_next (hn : s.next e = some s') (hs : Timed t n s)
    (hlt : t + 10 * (n + e.isTurn.toNat) < 2 ^ 64) : Timed t (n + e.isTurn.toNat) s' := by
  cases step_of_next hn with
  | @turn taken l l' hnow hstep hi =>
    obtain ⟨-, -, hhost, -⟩ := turn_frame hstep hi
    have hw : (s.wake + DEFAULT_TIME).toNat = s.wake.toNat + 10 := by
      have hlt' : s.wake.toNat + 10 < 2 ^ 64 := by
        rw [hs.wake]
        exact hlt
      exact (BitVec.toNat_add _ _).trans (Nat.mod_eq_of_lt hlt')
    have hnow' :
        ({ s with cpu := l'.cpu, wake := s.wake + DEFAULT_TIME } : Soc T).now = s.wake := by
      rw [← hnow]
      exact congrArg Host.timeStamp hhost
    refine ⟨?_, ?_, ?_, fun _ => ?_⟩
    · exact hw.trans (congrArg (· + 10) hs.wake)
    all_goals rw [hnow', hw]
    exact Nat.le_add_right _ _
  | signal cause hw => exact ⟨hs.wake, hs.now_le, hs.wake_le, hs.stopped⟩
  | advance uninit hnow hw hstop =>
    have hts : (s.advanced uninit).now = if s.now < s.nextTime then s.nextTime else s.now := rfl
    have hle := nextTime_le_wake (s := s)
    have hnow_le := hs.now_le
    have hwake_le := hs.wake_le
    refine ⟨hs.wake, ?_, ?_, fun h => ?_⟩
    · rw [hts]
      split
      next => exact hle
      next => exact hnow_le
    · rw [hts]
      split
      next h =>
        have := BitVec.lt_def.mp h
        show s.wake.toNat ≤ _
        omega
      next => exact hwake_le
    · have hstop' : s.cpu.bus.stopped = true := h
      rw [hstop] at hstop'
      cases hstop'

theorem countP_isTurn_cons (e : SocEvent T) (tr : List (SocEvent T)) :
    (e :: tr).countP SocEvent.isTurn = e.isTurn.toNat + tr.countP SocEvent.isTurn := by
  rw [List.countP_cons, Nat.add_comm]
  cases e <;> rfl

theorem timed_of_run (hr : Run next (fun _ _ => True) s tr s') (hs : Timed t n s)
    (hlt : t + 10 * (n + tr.countP SocEvent.isTurn) < 2 ^ 64) :
    Timed t (n + tr.countP SocEvent.isTurn) s' := by
  induction hr generalizing n with
  | nil s => exact hs
  | @cons s u s' e tr _ hn _ ih =>
    rw [countP_isTurn_cons, ← Nat.add_assoc] at hlt ⊢
    exact ih (timed_of_next hn hs (by omega)) hlt

/-- The turn behind `n` others is made at the time `10 * n`, and an instruction that reads a counter
in it gets the halves of that time. -/
theorem counter_of_turn (hr : Run next (fun _ _ => True) (start cpu) tr s)
    (hstop : cpu.bus.stopped = false) (hx : cpu.host.Exact) (h0 : cpu.host.timeStamp = 0)
    (hn : s.next (.turn taken) = some s') (hlt : 10 * tr.countP SocEvent.isTurn < 2 ^ 53)
    (k : Counter) :
    s.now = BitVec.ofNat 64 (10 * tr.countP SocEvent.isTurn) ∧
      (∀ v l, Reads s.thread k.low v l →
        v = ((BitVec.ofNat 64 (10 * tr.countP SocEvent.isTurn)).setWidth 32).setWidth T.xlen) ∧
      ∀ v l, Reads s.thread k.high v l →
        v = ((BitVec.ofNat 64 (10 * tr.countP SocEvent.isTurn) >>> 32).setWidth 32).setWidth
          T.xlen := by
  have ht0 : cpu.host.timeStamp.toNat = 0 := by
    rw [h0]
    rfl
  have hts := timed_of_run hr (timed_start hstop) (by omega)
  have hnow : s.now.toNat = 10 * tr.countP SocEvent.isTurn := by
    obtain ⟨heq, -⟩ := Option.ite_none_right_eq_some.mp hn
    rw [heq, hts.wake, ht0, Nat.zero_add, Nat.zero_add]
  have hval : s.now = BitVec.ofNat 64 (10 * tr.countP SocEvent.isTurn) := by
    rw [← hnow, BitVec.ofNat_toNat, BitVec.setWidth_eq]
  have hexact := exact_of_run hr hx
  have hsmall : s.thread.now < 2 ^ 53 := hnow.trans_lt hlt
  refine ⟨hval, fun v l h => ?_, fun v l h => ?_⟩
  · rw [← hval]
    exact h.low_eq hexact hsmall
  · rw [← hval]
    exact h.high_eq hexact hsmall

/-- A fence, and `csrr x1, cycle` in the second turn. -/
theorem counter_of_turn_second : ∃ s l,
    Run next (fun _ _ => True) (start (RiscvTlm.start .RV32 [0x0000000F, 0xC00020F3]))
      [.turn false, .advance fun _ => 0] s ∧
    Reads s.thread 0xC00 (10 : BitVec 32) l := by
  have h : (execute next (fun _ _ => True)
      (start (RiscvTlm.start .RV32 [0x0000000F, 0xC00020F3]))
      [.turn false, .advance fun _ => 0]).any (fun s => (s.next (.turn false)).isSome &&
        nextCsrRead s.cpu = some (0xC00, 1)) = true := by
    decide
  obtain ⟨s, hr, h⟩ := exists_run_of_execute h
  obtain ⟨hturn, hread⟩ := Bool.and_eq_true_iff.mp h
  obtain ⟨s', hn⟩ := Option.isSome_iff_exists.mp hturn
  obtain ⟨-, hlow, -⟩ := counter_of_turn hr rfl (fun _ _ => rfl) rfl hn (by decide) .cycle
  cases step_of_next hn with
  | @turn _ l l' hnow hl hi =>
    have hreads : Reads s.thread Counter.cycle.low (l.cpu.regs.getValue 1) l :=
      ⟨hl, 1, of_decide_eq_true hread, rfl⟩
    rw [hlow _ l hreads] at hreads
    exact ⟨s, l, hr, hreads⟩

/-! ## Interrupts -/

/-- How many events there can be before the next turn. -/
def pendingEvents (s : Soc T) : ℕ :=
  2 * s.cpu.bus.timer.timerEvent.isSome.toNat + s.woken.toNat + (s.now ≠ s.wake : Bool).toNat

theorem pendingEvents_le (s : Soc T) : s.pendingEvents ≤ 4 := by
  unfold pendingEvents
  have h₁ := Bool.toNat_le s.cpu.bus.timer.timerEvent.isSome
  have h₂ := Bool.toNat_le s.woken
  have h₃ := Bool.toNat_le (s.now ≠ s.wake : Bool)
  omega

theorem pendingEvents_start (cpu : System T) : (start cpu).pendingEvents ≤ 2 := by
  have hready : ((start cpu).now ≠ (start cpu).wake : Bool) = false :=
    decide_eq_false (not_not.mpr rfl)
  have hle := Bool.toNat_le cpu.bus.timer.timerEvent.isSome
  unfold pendingEvents
  rw [hready]
  show 2 * cpu.bus.timer.timerEvent.isSome.toNat + 0 + 0 ≤ 2
  omega

/-- When the time advances without a notification, the CPU resumes. -/
theorem nextTime_of_not_notifies (h : s.notifies = false) : s.nextTime = s.wake := by
  have hne : s.cpu.bus.timer.timerEvent ≠ some s.nextTime := of_decide_eq_false h
  unfold nextTime at hne ⊢
  split
  next d hd =>
    split
    next hlt =>
      rw [hd] at hne
      exact absurd (congrArg some (if_pos hlt).symm) hne
    next => rfl
  next => rfl

/-- An event that is not a turn leaves fewer events to come. -/
theorem pendingEvents_of_next (hn : s.next e = some s') (hs : s.now.toNat ≤ s.wake.toNat) :
    s'.pendingEvents + 1 ≤ s.pendingEvents + 5 * e.isTurn.toNat := by
  cases step_of_next hn with
  | turn => exact (Nat.add_le_add_right (pendingEvents_le _) 1).trans (Nat.le_add_left _ _)
  | signal cause hw =>
    unfold pendingEvents
    rw [hw]
    show 2 * s.cpu.bus.timer.timerEvent.isSome.toNat + 0 + (s.now ≠ s.wake : Bool).toNat + 1 ≤
      2 * s.cpu.bus.timer.timerEvent.isSome.toNat + 1 + (s.now ≠ s.wake : Bool).toNat + 0
    omega
  | advance uninit hnow hw hstop =>
    have hwait : (s.now ≠ s.wake : Bool).toNat = 1 := by
      rw [decide_eq_true hnow]
      rfl
    unfold pendingEvents
    rw [hw, hwait]
    cases hnot : s.notifies with
    | true =>
      have hevent : s.cpu.bus.timer.timerEvent = some s.nextTime := of_decide_eq_true hnot
      have hnone : (s.advanced uninit).cpu.bus.timer.timerEvent = none := if_pos hnot
      have hwoken : (s.advanced uninit).woken = true := hnot
      have hle := Bool.toNat_le ((s.advanced uninit).now ≠ (s.advanced uninit).wake : Bool)
      rw [hnone, hwoken, hevent]
      show 2 * 0 + 1 + _ + 1 ≤ 2 * 1 + 0 + 1 + 0
      omega
    | false =>
      have hkeep : (s.advanced uninit).cpu.bus.timer.timerEvent = s.cpu.bus.timer.timerEvent :=
        if_neg (by rw [hnot]; exact Bool.false_ne_true)
      have hwoken : (s.advanced uninit).woken = false := hnot
      have hlt : s.now < s.nextTime := by
        rw [nextTime_of_not_notifies hnot, BitVec.lt_def]
        exact lt_of_le_of_ne hs fun h => hnow (BitVec.eq_of_toNat_eq h)
      have hts : (s.advanced uninit).now = (s.advanced uninit).wake :=
        (if_pos hlt).trans (nextTime_of_not_notifies hnot)
      have hready : ((s.advanced uninit).now ≠ (s.advanced uninit).wake : Bool) = false :=
        decide_eq_false (not_not.mpr hts)
      rw [hkeep, hwoken, hready]
      exact le_rfl

/-- There are at most five events for each turn. -/
theorem length_of_run (hr : Run next (fun _ _ => True) s tr s') (hs : Timed t n s)
    (hlt : t + 10 * (n + tr.countP SocEvent.isTurn) < 2 ^ 64) :
    tr.length + s'.pendingEvents ≤ s.pendingEvents + 5 * tr.countP SocEvent.isTurn := by
  induction hr generalizing n with
  | nil s => exact (Nat.zero_add _).le
  | @cons s u s' e tr _ hn _ ih =>
    rw [countP_isTurn_cons, ← Nat.add_assoc] at hlt
    have hfirst := pendingEvents_of_next hn hs.now_le
    have hrest := ih (timed_of_next hn hs (by omega)) hlt
    rw [countP_isTurn_cons, List.length_cons]
    omega

/-! ## Programs that end -/

theorem countP_isStep_calls (tr : List (SocEvent T)) :
    (tr.flatMap SocEvent.calls).countP Event.isStep = tr.countP SocEvent.isTurn := by
  induction tr with
  | nil => rfl
  | cons e tr ih =>
    rw [List.flatMap_cons, List.countP_append, ih, countP_isTurn_cons]
    cases e <;> rfl

/-- The steps of the thread are the turns of the system. -/
theorem countP_isStep {tc : List (Event T)}
    (h : tc.filter Event.isCall = tr.flatMap SocEvent.calls) :
    tc.countP Event.isStep = tr.countP SocEvent.isTurn := by
  rw [← countP_isStep_calls, ← h, List.countP_filter]
  refine List.countP_congr fun e _ => ?_
  have he : (e.isStep && e.isCall) = e.isStep := by cases e <;> rfl
  rw [he]

variable {a v : Isa.State T.xlen} {fs : List Fetched} {m : CpuThread T}

theorem Follows.tracks (h : Follows s m) (hm : Tracks a m) : Tracks a s.thread := by
  obtain ⟨hcpu, event, out, -, hbus⟩ := h.cpu.rel
  obtain ⟨harch, hmie⟩ := hm
  rw [hcpu, hbus] at harch hmie
  exact ⟨harch, hmie⟩

theorem Follows.stopped (h : Follows s m) : m.cpu.bus.stopped = s.cpu.bus.stopped := by
  obtain ⟨-, event, out, -, hbus⟩ := h.cpu.rel
  rw [hbus]

/-- As long as the CPU tracks a machine that can go on, some event is possible. -/
theorem exists_next (hs : Running a s.thread) (hc : Completes a fs v) :
    ∃ e s', s.next e = some s' := by
  obtain ⟨f, u, hf, hu⟩ := hc.exists_next
  cases hw : s.woken with
  | true => exact ⟨.signal 0, _, if_pos hw⟩
  | false =>
    by_cases hnow : s.now = s.wake
    · obtain ⟨l, hl, hp⟩ := exists_next_step hs rfl hf hu
      have ht := simulates_machine.step hs.toTracks hf hu rfl hl
      obtain ⟨l', hl', -⟩ := exists_next_irq ht hp
      refine ⟨.turn false, { s with cpu := l'.cpu, wake := s.wake + DEFAULT_TIME },
        (if_pos hnow).trans ?_⟩
      rw [hl, Option.bind_some, hl']
      rfl
    · exact ⟨.advance s.cpu.host.uninit, _, if_pos ⟨hnow, hw, hs.running⟩⟩

/-- However its threads are scheduled, a system whose program ends makes a bounded number of events
and does not get stuck before it stops; then it is in the state behind the program, and ten units of
time have passed for each of the instructions before the last one. -/
theorem system_completes (h : Completes (archState cpu) fs v) (hm : cpu.mie = false)
    (hstop : cpu.bus.stopped = false) (hx : cpu.host.Exact)
    (hlt : cpu.host.timeStamp.toNat + 10 * (fs.length + 1) < 2 ^ 64)
    (hr : Run next (fun _ _ => True) (start cpu) tr s) :
    tr.length ≤ 5 * (fs.length + 1) + 2 ∧
      (s.cpu.bus.stopped = false → ∃ e s', s.next e = some s') ∧
      (s.cpu.bus.stopped = true → archState s.cpu = v ∧
        s.now.toNat = cpu.host.timeStamp.toNat + 10 * fs.length) := by
  obtain ⟨tc, m, htc, hf, hcalls⟩ := thread_of_run hr (follows_thread (start cpu)) hx
  have hsteps := countP_isStep hcalls
  have hcase := running_or_ended h ⟨⟨rfl, hm⟩, hstop⟩ (htc.mono fun _ _ _ => trivial)
  rw [hsteps] at hcase
  have hturns : tr.countP SocEvent.isTurn ≤ fs.length + 1 :=
    hcase.elim (fun hc => Nat.le_succ_of_le hc.1) fun hc => hc.1.le
  have hlt' : cpu.host.timeStamp.toNat + 10 * (0 + tr.countP SocEvent.isTurn) < 2 ^ 64 := by omega
  have htimed := timed_of_run hr (timed_start hstop) hlt'
  have hlen := length_of_run hr (timed_start hstop) hlt'
  have hstart := pendingEvents_start cpu
  refine ⟨by omega, fun hgo => ?_, fun hend => ?_⟩
  · rcases hcase with ⟨-, u, hu, hc⟩ | ⟨-, he⟩
    · exact exists_next ⟨hf.tracks hu.toTracks, hgo⟩ hc
    · have hstopped := he.stopped
      rw [hf.stopped, hgo] at hstopped
      cases hstopped
  · rcases hcase with ⟨-, u, hu, -⟩ | ⟨hn, he⟩
    · have hrunning := hu.running
      rw [hf.stopped, hend] at hrunning
      cases hrunning
    · refine ⟨(hf.tracks he.toTracks).arch, ?_⟩
      have hw := htimed.wake
      have hlast := htimed.stopped hend
      omega

/-- `addi x5, x0, 1` and a fence before an `ECALL`. -/
theorem system_completes_fence :
    let s : Soc .RV32 := start (RiscvTlm.start .RV32 [0x00100293, 0x0000000F, 0x00000073])
    ∃ s', Run next (fun _ _ => True) s [.turn false, .advance fun _ => 0, .turn false] s' ∧
      s'.cpu.bus.stopped = true ∧ s'.now.toNat = 10 := by
  intro s
  have hr : (execute next (fun _ _ => True) s [.turn false, .advance fun _ => 0,
      .turn false]).any (fun s' => s'.cpu.bus.stopped) = true := by decide
  have hu : (execute Machine.next (fun a f => Supported a f ∧ ¬EndsProgram a f) (archState s.cpu)
      [.full (.opImm .addi 5 0 1)]).any (fun u => Supported u (.full (.fence 0 0 0)) ∧
        EndsProgram u (.full (.fence 0 0 0)) ∧
        (Machine.next u (.full (.fence 0 0 0))).isSome) = true := by decide
  obtain ⟨s', hr, hstop⟩ := exists_run_of_execute hr
  obtain ⟨u, hu, hend⟩ := exists_run_of_execute hu
  obtain ⟨hf, he, hv⟩ := of_decide_eq_true hend
  obtain ⟨v, hv⟩ := Option.isSome_iff_exists.mp hv
  obtain ⟨-, -, hlast⟩ := system_completes ⟨u, .full (.fence 0 0 0), hu, hf, he, hv⟩ (by decide) rfl
    (fun _ _ => rfl) (by decide) hr
  exact ⟨s', hr, hstop, (hlast hstop).2⟩

end Soc

end RiscvTlm
