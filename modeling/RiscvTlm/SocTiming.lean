import RiscvTlm.SocRuns

/-!
# Deadlines of the system

A notification of the timer that no turn of the CPU moves is signalled at its time, neither earlier
nor later, and the CPU looks at it in the next turn, at most ten units later. There it is taken
exactly when interrupts are enabled and none is being handled.
-/

namespace RiscvTlm.Soc

open Transitions

variable {T : CpuType} {s s' : Soc T} {e : SocEvent T} {tr tr₀ : List (SocEvent T)}
  {cpu : System T} {d : BitVec 64}

/-- A turn leaves the notification as it is. -/
def Keeps (s : Soc T) (e : SocEvent T) : Prop :=
  e.isTurn = true → ∀ s' ∈ s.next e, s'.cpu.bus.timer.timerEvent = s.cpu.bus.timer.timerEvent

instance (s : Soc T) (e : SocEvent T) : Decidable (Keeps s e) :=
  inferInstanceAs (Decidable (e.isTurn = true → ∀ s' ∈ s.next e,
    s'.cpu.bus.timer.timerEvent = s.cpu.bus.timer.timerEvent))

/-! ## The signal -/

/-- A signal is due at the time `d`. -/
inductive Due (d : BitVec 64) (s : Soc T) : Prop
  | armed (hd : s.cpu.bus.timer.timerEvent = some d) (hle : s.now.toNat ≤ d.toNat)
  | woken (hw : s.woken = true) (hnow : s.now = d)

theorem now_advanced (uninit : BitVec 64 → BitVec 32) :
    (s.advanced uninit).now = if s.now < s.nextTime then s.nextTime else s.now := rfl

theorem due_of_next (hn : s.next e = some s') (hk : Keeps s e) (h : Due d s) :
    Due d s' ∨ s.now = d ∧ ∃ cause, e = .signal cause := by
  cases step_of_next hn with
  | @turn taken l l' hnow hs hi =>
    obtain ⟨-, -, hhost, -⟩ := turn_frame hs hi
    have hkeep : l'.cpu.bus.timer.timerEvent = s.cpu.bus.timer.timerEvent := hk rfl _ hn
    have htime : l'.cpu.host.timeStamp = s.now := congrArg Host.timeStamp hhost
    left
    cases h with
    | armed hd hle =>
      refine .armed (hkeep.trans hd) ?_
      show l'.cpu.host.timeStamp.toNat ≤ d.toNat
      rw [htime]
      exact hle
    | woken hw hd => exact .woken hw (htime.trans hd)
  | signal cause hw =>
    cases h with
    | armed hd hle => exact .inl (.armed hd hle)
    | woken _ hd => exact .inr ⟨hd, cause, rfl⟩
  | advance uninit hnow hw hs =>
    left
    cases h with
    | woken hw' _ =>
      rw [hw] at hw'
      cases hw'
    | armed hd hle =>
      cases hnot : s.notifies with
      | true =>
        have hevent : s.cpu.bus.timer.timerEvent = some s.nextTime := of_decide_eq_true hnot
        obtain rfl : s.nextTime = d := Option.some_inj.mp (hevent.symm.trans hd)
        refine .woken hnot ?_
        rw [now_advanced]
        split
        next => rfl
        next hlt => exact BitVec.eq_of_toNat_eq (Nat.le_antisymm hle (not_lt.mp hlt))
      | false =>
        have hkeep : (s.advanced uninit).cpu.bus.timer.timerEvent =
            s.cpu.bus.timer.timerEvent := if_neg (by rw [hnot]; exact Bool.false_ne_true)
        refine .armed (hkeep.trans hd) ?_
        rw [now_advanced]
        split
        next => exact nextTime_le hd
        next => exact hle

/-- Time does not pass the deadline before the signal. -/
theorem exists_signal (hr : Run next Keeps s tr s') (h : Due d s)
    (hpast : d.toNat < s'.now.toNat) : ∃ tr₁ cause tr₂ s₁ s₂, tr = tr₁ ++ .signal cause :: tr₂ ∧
      Run next Keeps s tr₁ s₁ ∧ s₁.now = d ∧ s₁.next (.signal cause) = some s₂ ∧
      Run next Keeps s₂ tr₂ s' := by
  induction hr with
  | nil s =>
    exfalso
    cases h with
    | armed _ hle => omega
    | woken _ hnow =>
      rw [hnow] at hpast
      exact Nat.lt_irrefl _ hpast
  | @cons s u s' e tr hk hn hr ih =>
    rcases due_of_next hn hk h with hu | ⟨hnow, cause, rfl⟩
    · obtain ⟨tr₁, cause, tr₂, s₁, s₂, rfl, hr₁, h₁, h₂, hr₂⟩ := ih hu hpast
      exact ⟨e :: tr₁, cause, tr₂, s₁, s₂, rfl, .cons hk hn hr₁, h₁, h₂, hr₂⟩
    · exact ⟨[], cause, tr, s, u, rfl, .nil s, hnow, hn, hr⟩

/-! ## The turn after it -/

/-- Time does not pass the wake-up of the CPU before its turn, and until then a signal is
pending. -/
theorem exists_turn {P : Soc T → SocEvent T → Prop} (hr : Run next P s tr s')
    (hle : s.now.toNat ≤ s.wake.toNat) (hi : s.cpu.interrupt = true)
    (hpast : s.wake.toNat < s'.now.toNat) : ∃ tr₁ taken tr₂ s₁ s₂, tr = tr₁ ++ .turn taken :: tr₂ ∧
      (∀ e ∈ tr₁, e.isTurn = false) ∧ Run next P s tr₁ s₁ ∧ s₁.now = s.wake ∧
      s₁.cpu.interrupt = true ∧ s₁.next (.turn taken) = some s₂ := by
  induction hr with
  | nil s => omega
  | @cons s u s' e tr hP hn hr ih =>
    have hstep := step_of_next hn
    cases hstep with
    | turn hnow =>
      exact ⟨[], _, tr, s, _, rfl, List.forall_mem_nil _, .nil s, hnow, hi, hn⟩
    | signal cause hw =>
      obtain ⟨tr₁, taken, tr₂, s₁, s₂, rfl, hnot, hr₁, h₁, h₂, h₃⟩ := ih hle rfl hpast
      exact ⟨_ :: tr₁, taken, tr₂, s₁, s₂, rfl, List.forall_mem_cons.mpr ⟨rfl, hnot⟩,
        .cons hP hn hr₁, h₁, h₂, h₃⟩
    | advance uninit hnow hw hs =>
      have hle' : (s.advanced uninit).now.toNat ≤ s.wake.toNat := by
        rw [now_advanced]
        split
        next => exact nextTime_le_wake
        next => exact hle
      obtain ⟨tr₁, taken, tr₂, s₁, s₂, rfl, hnot, hr₁, h₁, h₂, h₃⟩ := ih hle' hi hpast
      exact ⟨_ :: tr₁, taken, tr₂, s₁, s₂, rfl, List.forall_mem_cons.mpr ⟨rfl, hnot⟩,
        .cons hP hn hr₁, h₁, h₂, h₃⟩

/-- A turn with a pending signal takes the interrupt if `cpu_process_IRQ` may. -/
theorem taken_iff {taken : Bool} (hn : s.next (.turn taken) = some s')
    (hi : s.cpu.interrupt = true) : ∃ l, s.thread.next .cpuStep = some l ∧
      (taken = true ↔ l.cpu.mie = true ∧ l.cpu.meip = false) := by
  cases step_of_next hn with
  | @turn _ l l' hnow hs hirq =>
    refine ⟨l, hs, ?_⟩
    obtain ⟨⟨b, hb⟩, -⟩ := turn_frame hs hirq
    have hkeep : l.cpu.interrupt = true := (cpuStep_interrupt hb).trans hi
    cases RiscvTlm.step_of_next hirq with
    | taken _ hm hp => exact iff_of_true rfl ⟨hm, hp⟩
    | delayed _ hd =>
      refine iff_of_false Bool.false_ne_true fun h => ?_
      rw [hd h.1] at h
      cases h.2
    | down hdown =>
      rw [hdown] at hkeep
      cases hkeep

/-- A deadline that is not moved is met: the timer signals at that time, the turn after the signal
is at most ten units later, and the interrupt is taken in it exactly when interrupts are enabled and
none is being handled. -/
theorem deadline_met (hr₀ : Run next (fun _ _ => True) (start cpu) tr₀ s)
    (hstop : cpu.bus.stopped = false) (hd : s.cpu.bus.timer.timerEvent = some d)
    (hle : s.now.toNat ≤ d.toNat) (hr : Run next Keeps s tr s')
    (hpast : d.toNat + 10 < s'.now.toNat)
    (hlt : cpu.host.timeStamp.toNat + 10 * (tr₀ ++ tr).countP SocEvent.isTurn < 2 ^ 64) :
    ∃ tr₁ cause tr₂ taken tr₃ s₁ s₂ l, tr = tr₁ ++ .signal cause :: (tr₂ ++ .turn taken :: tr₃) ∧
      Run next Keeps s tr₁ s₁ ∧ s₁.now = d ∧ (∀ e ∈ tr₂, e.isTurn = false) ∧
      Run next Keeps s₁ (.signal cause :: tr₂) s₂ ∧ s₂.now.toNat ≤ d.toNat + 10 ∧
      s₂.thread.next .cpuStep = some l ∧
      (taken = true ↔ l.cpu.mie = true ∧ l.cpu.meip = false) := by
  obtain ⟨tr₁, cause, tr₂, s₁, u, rfl, hr₁, h₁, hn, hr₂⟩ :=
    exists_signal hr (.armed hd hle) (by omega)
  have hcount : tr₀.countP SocEvent.isTurn + tr₁.countP SocEvent.isTurn ≤
      (tr₀ ++ (tr₁ ++ .signal cause :: tr₂)).countP SocEvent.isTurn := by
    rw [List.countP_append, List.countP_append]
    omega
  have htimed := timed_of_run (hr₀.append (hr₁.mono fun _ _ _ => trivial)) (timed_start hstop) (by
    rw [List.countP_append]
    omega)
  cases step_of_next hn with
  | signal _ hw =>
    have hwake := htimed.wake_le
    rw [h₁] at hwake
    obtain ⟨tr₂, taken, tr₃, s₂, v, rfl, hnot, hr₃, h₂, hi, hturn⟩ :=
      exists_turn hr₂ htimed.now_le rfl (Nat.lt_of_le_of_lt hwake hpast)
    obtain ⟨l, hl, htaken⟩ := taken_iff hturn hi
    have hkeeps : Keeps s₁ (.signal cause) := fun h => by cases h
    refine ⟨tr₁, cause, tr₂, taken, tr₃, s₁, s₂, l, rfl, hr₁, h₁, hnot, .cons hkeeps hn hr₃, ?_, hl,
      htaken⟩
    rw [h₂]
    exact hwake

/-- A store to `mtimecmp` at the time 20, for that time. -/
theorem deadline_met_store :
    let s : Soc .RV32 := start (RiscvTlm.start .RV32
      [0x400042B7, 0x30045073, 0x0002A623, 0x0000006F, 0x0000006F])
    ∃ s₁ s', Run next (fun _ _ => True) s [.turn false, .advance fun _ => 0, .turn false,
        .advance fun _ => 0, .turn false] s₁ ∧
      Run next Keeps s₁ [.advance fun _ => 0, .signal 0x80000007, .advance fun _ => 0, .turn true,
        .advance fun _ => 0] s' ∧
      ∃ tr₁ s₂, Run next Keeps s₁ tr₁ s₂ ∧ s₂.now = 20 := by
  intro s
  have h : (execute next (fun _ _ => True) s [.turn false, .advance fun _ => 0, .turn false,
      .advance fun _ => 0, .turn false]).any (fun s₁ =>
        (s₁.cpu.bus.timer.timerEvent = some 20 ∧ s₁.now.toNat ≤ 20 : Bool) &&
        (execute next Keeps s₁ [.advance fun _ => 0, .signal 0x80000007, .advance fun _ => 0,
          .turn true, .advance fun _ => 0]).any (fun s' => 30 < s'.now.toNat)) = true := by decide
  obtain ⟨s₁, hr₀, h⟩ := exists_run_of_execute h
  obtain ⟨hd, h⟩ := Bool.and_eq_true_iff.mp h
  obtain ⟨hd, hle⟩ := of_decide_eq_true hd
  obtain ⟨s', hr, hpast⟩ := exists_run_of_execute h
  obtain ⟨tr₁, -, -, -, -, s₂, -, -, -, hr₁, hnow, -⟩ :=
    deadline_met hr₀ rfl hd hle hr (of_decide_eq_true hpast) (by decide)
  exact ⟨s₁, s', hr₀, hr, tr₁, s₂, hr₁, hnow⟩

end RiscvTlm.Soc
