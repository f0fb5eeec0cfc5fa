import RiscvTlm.BusRelations
import RiscvTlm.Counters
import RiscvTlm.TimerRuns

/-!
# The system on a chip

The CPU and the timer as `Simulator` connects them, under the scheduler of SystemC. `CPU_thread`
makes a turn and waits for `default_time`; `Timer::run` waits for `timer_event` and signals
`irq_line`; when neither can run, time advances to the next wake-up. Threads that are woken at the
same time run in any order. From the CPU a run of the system is one of its thread, from the timer
one of the timer.
-/

namespace RiscvTlm

open Prog Transitions

variable {T : CpuType}

/-- `default_time`, ten units of the time resolution. -/
abbrev DEFAULT_TIME : BitVec 64 := 10

/-- The CPU with its bus, the time at which its thread resumes, and whether `timer_event` has woken
`Timer::run`, which has not signalled yet. -/
structure Soc (T : CpuType) where
  cpu : System T
  wake : BitVec 64
  woken : Bool

inductive SocEvent (T : CpuType)
  | turn (taken : Bool)
  | signal (cause : BitVec T.xlen)
  | advance (uninit : BitVec 64 → BitVec 32)

namespace Soc

variable (s : Soc T)

/-- The simulated time. -/
def now : BitVec 64 := s.cpu.host.timeStamp

/-- The thread of the CPU, about to make a turn. -/
def thread : CpuThread T := ⟨.step, s.cpu⟩

/-- The earliest wake-up. -/
def nextTime : BitVec 64 :=
  match s.cpu.bus.timer.timerEvent with
  | some d => if d < s.wake then d else s.wake
  | none => s.wake

/-- `timer_event` is notified at the earliest wake-up. -/
def notifies : Bool := s.cpu.bus.timer.timerEvent = some s.nextTime

/-- The environment of the next wake-up. Time does not go back to one that is over already. -/
def nextHost (uninit : BitVec 64 → BitVec 32) : Host where
  timeStamp := if s.now < s.nextTime then s.nextTime else s.now
  toDouble := s.cpu.host.toDouble
  uninit := uninit

/-- The time advances. -/
def advanced (uninit : BitVec 64 → BitVec 32) : Soc T where
  cpu :=
    { s.cpu with
      host := s.nextHost uninit
      bus := { s.cpu.bus with timer := { s.cpu.bus.timer with
        timerEvent := if s.notifies then none else s.cpu.bus.timer.timerEvent } } }
  wake := s.wake
  woken := s.notifies

/-- After `sc_stop` the threads that are woken still run. -/
def next : SocEvent T → Option (Soc T)
  | .turn taken =>
    if s.now = s.wake then
      (s.thread.next .cpuStep).bind fun l => (l.next (.cpuProcessIRQ taken)).map fun l' =>
        { s with cpu := l'.cpu, wake := s.wake + DEFAULT_TIME }
    else none
  | .signal cause =>
    if s.woken then some { s with cpu := callInterrupt cause s.cpu, woken := false } else none
  | .advance uninit =>
    if s.now ≠ s.wake ∧ s.woken = false ∧ s.cpu.bus.stopped = false then
      some (s.advanced uninit)
    else none

/-- The system after its construction. -/
def start (cpu : System T) : Soc T := ⟨cpu, cpu.host.timeStamp, false⟩

end Soc

/-! ## Steps -/

namespace Soc

variable {s s' : Soc T} {e : SocEvent T} {tr : List (SocEvent T)}

/-- The events, by what they do. -/
inductive Step (s : Soc T) : SocEvent T → Soc T → Prop
  | turn {taken : Bool} {l l' : CpuThread T} (hnow : s.now = s.wake)
      (hs : s.thread.next .cpuStep = some l) (hi : l.next (.cpuProcessIRQ taken) = some l') :
      Step s (.turn taken) { s with cpu := l'.cpu, wake := s.wake + DEFAULT_TIME }
  | signal (cause : BitVec T.xlen) (hw : s.woken = true) :
      Step s (.signal cause) { s with cpu := callInterrupt cause s.cpu, woken := false }
  | advance (uninit : BitVec 64 → BitVec 32) (hnow : s.now ≠ s.wake) (hw : s.woken = false)
      (hs : s.cpu.bus.stopped = false) : Step s (.advance uninit) (s.advanced uninit)

theorem step_of_next (h : s.next e = some s') : Step s e s' := by
  cases e with
  | turn taken =>
    obtain ⟨hnow, h⟩ := Option.ite_none_right_eq_some.mp h
    obtain ⟨l, hl, h⟩ := Option.bind_eq_some_iff.mp h
    obtain ⟨l', hl', rfl⟩ := Option.map_eq_some_iff.mp h
    exact .turn hnow hl hl'
  | signal cause =>
    obtain ⟨hw, h⟩ := Option.ite_none_right_eq_some.mp h
    cases h
    exact .signal cause hw
  | advance uninit =>
    obtain ⟨⟨hnow, hw, hs⟩, h⟩ := Option.ite_none_right_eq_some.mp h
    cases h
    exact .advance uninit hnow hw hs

/-- A turn is a step of the CPU, and `cpu_process_IRQ` does not look at the bus. -/
theorem turn_frame {l l' : CpuThread T} {taken : Bool} (hs : s.thread.next .cpuStep = some l)
    (hi : l.next (.cpuProcessIRQ taken) = some l') :
    (∃ b, cpuStep.run s.cpu = .ok b l.cpu) ∧ l'.point = .step ∧ l'.cpu.host = s.cpu.host ∧
      l'.cpu.bus = l.cpu.bus := by
  have hstep : ∃ b, cpuStep.run s.cpu = .ok b l.cpu := by
    unfold thread at hs
    cases RiscvTlm.step_of_next hs with
    | cpuStep h => exact ⟨_, h⟩
  obtain ⟨b, hb⟩ := hstep
  have hhost : l.cpu.host = s.cpu.host := cpuStep_host hb
  refine ⟨⟨b, hb⟩, ?_⟩
  cases RiscvTlm.step_of_next hi with
  | taken => exact ⟨rfl, hhost, rfl⟩
  | delayed => exact ⟨rfl, hhost, rfl⟩
  | down => exact ⟨rfl, irqDown_host.trans hhost, irqDown_bus⟩

end Soc

/-! ## The run of the CPU -/

/-- A call of the thread or a notification. -/
def Event.isCall : Event T → Bool
  | .wait _ => false
  | _ => true

/-- The calls in an event of the system. -/
def SocEvent.calls : SocEvent T → List (Event T)
  | .turn taken => [.cpuStep, .cpuProcessIRQ taken]
  | .signal cause => [.callInterrupt cause]
  | .advance _ => []

namespace Soc

variable {s s' : Soc T} {e : SocEvent T} {tr : List (SocEvent T)} {m : CpuThread T}

/-- A thread in the state of the CPU, up to what no program sees. -/
structure Follows (s : Soc T) (m : CpuThread T) : Prop where
  point : m.point = .step
  cpu : Alike (unseen [] []) s.cpu m.cpu

theorem Follows.host (h : Follows s m) : m.cpu.host = s.cpu.host := by
  rw [h.cpu.rel.1]

theorem exact_of_next (hn : s.next e = some s') (hx : s.cpu.host.Exact) : s'.cpu.host.Exact := by
  cases step_of_next hn with
  | @turn taken l l' hnow hs hi =>
    show l'.cpu.host.Exact
    rw [(turn_frame hs hi).2.2.1]
    exact hx
  | signal | advance => exact hx

theorem exact_of_run (hr : Run next (fun _ _ => True) s tr s') (hx : s.cpu.host.Exact) :
    s'.cpu.host.Exact :=
  hr.invariant (I := fun s => s.cpu.host.Exact) (fun _ _ _ hx _ hn => exact_of_next hn hx) hx

theorem thread_of_next (hn : s.next e = some s') (hm : Follows s m) (hx : s.cpu.host.Exact) :
    ∃ tc m', TimedRun m tc m' ∧ Follows s' m' ∧ tc.filter Event.isCall = e.calls := by
  cases step_of_next hn with
  | @turn taken l l' hnow hs hi =>
    obtain ⟨-, hp, -, -⟩ := turn_frame hs hi
    obtain ⟨m₁, hm₁, hp₁, h₁⟩ := next_unseen hs hm.point hm.cpu
    obtain ⟨m₂, hm₂, hp₂, h₂⟩ := next_unseen hi hp₁ h₁
    exact ⟨[.cpuStep, .cpuProcessIRQ taken], m₂,
      .cons trivial hm₁ (.cons trivial hm₂ (.nil m₂)), ⟨hp₂.trans hp, h₂⟩, rfl⟩
  | signal cause hw =>
    obtain ⟨m', hm', hp', h'⟩ :=
      next_unseen (l := s.thread) (e := .callInterrupt cause) rfl hm.point hm.cpu
    exact ⟨[.callInterrupt cause], m', .cons trivial hm' (.nil m'), ⟨hp', h'⟩, rfl⟩
  | advance uninit hnow hw hs =>
    obtain ⟨m', hm', hp', h'⟩ :=
      next_unseen (l := s.thread) (e := .wait (s.nextHost uninit)) rfl hm.point hm.cpu
    have hx' : (s.nextHost uninit).Exact := hx
    have hle : m.cpu.host.timeStamp.toNat ≤ (s.nextHost uninit).timeStamp.toNat := by
      rw [hm.host]
      show s.now.toNat ≤ (if s.now < s.nextTime then s.nextTime else s.now).toNat
      split
      next h => exact Nat.le_of_lt (BitVec.lt_def.mp h)
      next => exact le_rfl
    refine ⟨[.wait (s.nextHost uninit)], m', .cons ⟨hle, hx'⟩ hm' (.nil m'), ⟨hp', ?_⟩, rfl⟩
    obtain ⟨hcpu, event, out, hout, hbus⟩ := h'.rel
    rw [hcpu, hbus]
    exact .mk ⟨event, out, hout, rfl⟩

/-- A run of the system is one of the thread, which makes the same calls and gets the same
notifications. -/
theorem thread_of_run (hr : Run next (fun _ _ => True) s tr s') (hm : Follows s m)
    (hx : s.cpu.host.Exact) : ∃ tc m', TimedRun m tc m' ∧ Follows s' m' ∧
      tc.filter Event.isCall = tr.flatMap SocEvent.calls := by
  induction hr generalizing m with
  | nil s => exact ⟨[], m, .nil m, hm, rfl⟩
  | cons _ hn _ ih =>
    obtain ⟨tc, m₁, hm₁, h₁, hcalls⟩ := thread_of_next hn hm hx
    obtain ⟨tc', m', hm', h', hcalls'⟩ := ih h₁ (exact_of_next hn hx)
    refine ⟨tc ++ tc', m', hm₁.append hm', h', ?_⟩
    rw [List.filter_append, hcalls, hcalls', List.flatMap_cons]

end Soc

/-! ## The run of the timer -/

namespace Soc

variable {s s' : Soc T} {e : SocEvent T} {tr : List (SocEvent T)}

theorem nextTime_le {d : BitVec 64} (hd : d ∈ s.cpu.bus.timer.timerEvent) :
    s.nextTime.toNat ≤ d.toNat := by
  unfold nextTime
  rw [Option.mem_def.mp hd]
  dsimp only
  split
  next => exact le_rfl
  next h => exact not_lt.mp h

end Soc

end RiscvTlm
