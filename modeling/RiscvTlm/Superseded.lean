import RiscvTlm.TimerDeadlines

/-!
# Superseded deadlines

A run of the timer together with the deadlines it has armed: each write to the high half of
`mtimecmp` arms one, and a notification of the event uses up all of them. The notification comes at
the earliest of them, so the interrupt is never early exactly when the comparator, as it then is,
is not after any of them.
-/

namespace RiscvTlm

open Transitions Timer
open TimerThread (boot cmpLo cmpHi next_wait next_notified)

/-- The timer, the deadlines armed since the last notification and those of that notification, which
`run` has not signalled yet. -/
structure ArmedTimer where
  thread : TimerThread
  armed : List ℕ
  expired : List ℕ

namespace ArmedTimer

variable {x y : ArmedTimer} {l l' : TimerThread} {e : TimerEvent} {tr : List TimerEvent}
  {host : Host}

/-- The time at which a write to the high half of `mtimecmp` has the event notified, if no earlier
one is pending. -/
def deadline (l : TimerThread) (trans : Payload) : ℕ :=
  max l.now (l.host.timeStamp + (setHigh l.timer.mtimecmp trans.auxValue - l.timer.mtime)).toNat

/-- The deadlines after an event. -/
def record (x : ArmedTimer) : TimerEvent → List ℕ × List ℕ
  | .access payload =>
    if payload.Writes TIMERCMP_MEMORY_ADDRESS_HI then
      (deadline x.thread payload :: x.armed, x.expired)
    else (x.armed, x.expired)
  | .wait _ => (x.armed, x.expired)
  | .notified => ([], x.armed)
  | .irq => (x.armed, [])

def next (x : ArmedTimer) (e : TimerEvent) : Option ArmedTimer :=
  (x.thread.next e).map fun l => ⟨l, (x.record e).1, (x.record e).2⟩

def start (host : Host) : ArmedTimer := ⟨.start host, [], []⟩

/-- `n` is the least of the times. -/
def Earliest (n : ℕ) (times : List ℕ) : Prop := n ∈ times ∧ ∀ d ∈ times, n ≤ d

/-- The pending notification is the earliest of the armed ones, and `run` is woken at the earliest
of the expired ones. -/
structure Tracked (x : ArmedTimer) : Prop where
  idle : x.thread.timer.timerEvent = none → x.armed = []
  pending : ∀ d, x.thread.timer.timerEvent = some d →
    Earliest (max x.thread.now d.toNat) x.armed
  woken : x.thread.woken = true → Earliest x.thread.now x.expired

theorem next_of_thread (h : x.thread.next e = some l) :
    x.next e = some ⟨l, (x.record e).1, (x.record e).2⟩ := by
  unfold next
  rw [h]
  rfl

/-- Every run of the timer is one with its deadlines. -/
theorem run_of_thread (h : Run TimerThread.next (fun _ _ => True) x.thread tr l) :
    ∃ y, Run next (fun _ _ => True) x tr y ∧ y.thread = l := by
  induction tr generalizing x with
  | nil =>
    cases h
    exact ⟨x, .nil x, rfl⟩
  | cons e tr ih =>
    cases h with
    | @cons _ l₁ _ _ _ _ hn hr =>
      obtain ⟨y, hy, hl⟩ := ih (x := ⟨l₁, (x.record e).1, (x.record e).2⟩) hr
      exact ⟨y, .cons trivial (next_of_thread hn) hy, hl⟩

/-! ## One step -/

theorem earliest_singleton (n : ℕ) : Earliest n [n] :=
  ⟨List.mem_singleton.mpr rfl, fun _ hd => (List.mem_singleton.mp hd).ge⟩

theorem earliest_cons {n m : ℕ} {times : List ℕ} (h : Earliest n times) :
    Earliest (min n m) (m :: times) := by
  obtain ⟨hn, hle⟩ := h
  constructor
  · rcases le_total n m with hnm | hnm
    · rw [min_eq_left hnm]
      exact List.mem_cons_of_mem _ hn
    · rw [min_eq_right hnm]
      exact List.mem_cons_self
  · intro d hd
    rcases List.mem_cons.mp hd with rfl | hd
    · exact min_le_right _ _
    · exact (min_le_left _ _).trans (hle d hd)

/-- The event after the write that arms a deadline. -/
theorem tracked_writesHigh {payload : Payload} (hx : Tracked x)
    (hh : payload.Writes TIMERCMP_MEMORY_ADDRESS_HI) :
    Tracked ⟨x.thread.accessed payload, deadline x.thread payload :: x.armed, x.expired⟩ := by
  have ht : (x.thread.accessed payload).timer = _ :=
    (bTransport_accessed x.thread.timer x.thread.host payload).eq_of_writesHigh hh
  have hnow : (x.thread.accessed payload).now = x.thread.now := rfl
  cases he : x.thread.timer.timerEvent with
  | none =>
    have hnew := (congrArg Timer.timerEvent ht).trans
      (notify_of_none { x.thread.timer with
        mtimecmp := setHigh x.thread.timer.mtimecmp payload.auxValue } he _ _)
    constructor
    · intro h0
      rw [hnew] at h0
      cases h0
    · intro d hd
      rw [hnew] at hd
      cases hd
      rw [hnow, hx.idle he]
      exact earliest_singleton _
    · exact hx.woken
  | some d₀ =>
    have hnew := (congrArg Timer.timerEvent ht).trans
      (notify_of_some { x.thread.timer with
        mtimecmp := setHigh x.thread.timer.mtimecmp payload.auxValue } he _ _)
    constructor
    · intro h0
      rw [hnew] at h0
      cases h0
    · intro d hd
      have hmin : max x.thread.now d.toNat =
          min (max x.thread.now d₀.toNat) (deadline x.thread payload) := by
        rw [hnew] at hd
        cases hd
        unfold deadline
        rw [← max_min_distrib_left]
        congr 1
        split
        next hle => exact (min_eq_left hle).symm
        next hlt => exact (min_eq_right (le_of_lt (BitVec.not_le.mp hlt))).symm
      rw [hnow, hmin]
      exact earliest_cons (hx.pending d₀ he)
    · exact hx.woken

theorem tracked_next (hx : Tracked x) (hn : x.next e = some y) : Tracked y := by
  obtain ⟨l, hl, rfl⟩ := Option.map_eq_some_iff.mp hn
  cases e with
  | access payload =>
    cases hl
    unfold record
    dsimp only
    split
    next hh => exact tracked_writesHigh hx hh
    next hh =>
      have he : (x.thread.timer.bTransport x.thread.host payload).1.timerEvent =
        x.thread.timer.timerEvent := (bTransport_accessed _ _ _).timerEvent_eq hh
      exact ⟨fun h => hx.idle (he ▸ h), fun d hd => hx.pending d (he ▸ hd), hx.woken⟩
  | wait host =>
    cases TimerThread.step_of_next hl with
    | wait hw hle hd =>
      refine ⟨hx.idle, fun d he => ?_, fun h => ?_⟩
      · -- the time is at most the deadline, before and after the wait
        have hlt : host.timeStamp.toNat ≤ d.toNat := hd d he
        have hp := hx.pending d he
        rw [max_eq_right (hle.trans hlt)] at hp
        show Earliest (max host.timeStamp.toNat d.toNat) x.armed
        rw [max_eq_right hlt]
        exact hp
      · rw [show x.thread.woken = true from h] at hw
        cases hw
  | notified =>
    cases TimerThread.step_of_next hl with
    | @notified d hw hd hle =>
      refine ⟨fun _ => rfl, nofun, fun _ => ?_⟩
      have hp := hx.pending d hd
      rw [max_eq_left hle] at hp
      exact hp
  | irq =>
    cases TimerThread.step_of_next hl with
    | irq hw => exact ⟨hx.idle, hx.pending, nofun⟩

/-! ## Runs -/

theorem tracked_start (host : Host) : Tracked (start host) := ⟨fun _ => rfl, nofun, nofun⟩

/-- Every interrupt of the run comes at or after the `mtimecmp` then in force. -/
def NeverEarly (l₀ : TimerThread) (tr : List TimerEvent) : Prop :=
  ∀ tr₁ tr₂ l, tr = tr₁ ++ .irq :: tr₂ → Run TimerThread.next (fun _ _ => True) l₀ tr₁ l →
    l.timer.mtimecmp.toNat ≤ l.now

/-- At an interrupt the comparator is not after any deadline that its notification stands for. -/
def InForce (x : ArmedTimer) (e : TimerEvent) : Prop :=
  e = .irq → ∀ d ∈ x.expired, x.thread.timer.mtimecmp.toNat ≤ d

theorem thread_of_next (hn : x.next e = some y) : x.thread.next e = some y.thread := by
  obtain ⟨l, hl, rfl⟩ := Option.map_eq_some_iff.mp hn
  exact hl

/-- The time of an interrupt is the earliest deadline of its notification. -/
theorem earliest_of_irq (hx : Tracked x) (hn : x.next .irq = some y) :
    Earliest x.thread.now x.expired := by
  have hl := thread_of_next hn
  generalize y.thread = l at hl
  cases TimerThread.step_of_next hl with
  | irq hw => exact hx.woken hw

theorem neverEarly_iff_run (hx : Tracked x) (hr : Run next (fun _ _ => True) x tr y) :
    NeverEarly x.thread tr ↔ Run next InForce x tr y := by
  induction hr with
  | nil x =>
    refine ⟨fun _ => .nil x, fun _ tr₁ tr₂ l h => ?_⟩
    exact absurd h (by simp)
  | @cons x y z e tr _ hn hr ih =>
    have ih := ih (tracked_next hx hn)
    have hl := thread_of_next hn
    constructor
    · intro h
      refine .cons ?_ hn (ih.mp ?_)
      · rintro rfl d hd
        exact (h [] tr _ rfl (.nil _)).trans ((earliest_of_irq hx hn).2 d hd)
      · intro tr₁ tr₂ l he hr₁
        exact h (e :: tr₁) tr₂ l (by rw [he]; rfl) (.cons trivial hl hr₁)
    · intro h tr₁ tr₂ l he hr₁
      cases h with
      | cons hP hn' hr' =>
        obtain rfl := Option.some_inj.mp (hn.symm.trans hn')
        cases tr₁ with
        | nil =>
          obtain ⟨rfl, rfl⟩ := List.cons.inj he
          cases hr₁
          exact hP rfl _ (earliest_of_irq hx hn).1
        | cons e' tr₁ =>
          obtain ⟨rfl, htr⟩ := List.cons.inj he
          cases hr₁ with
          | cons _ hn₁ hr₁ =>
            obtain rfl := Option.some_inj.mp (hl.symm.trans hn₁)
            exact ih.mpr hr' tr₁ tr₂ l htr hr₁

/-- In every run from the start no interrupt is early exactly when at each of them the comparator
is not after any deadline armed since the notification before. -/
theorem neverEarly_iff (hr : Run TimerThread.next (fun _ _ => True) (.start host) tr l) :
    NeverEarly (.start host) tr ↔ ∃ x, Run next InForce (start host) tr x := by
  obtain ⟨y, hy, -⟩ := run_of_thread (x := start host) hr
  have hiff := neverEarly_iff_run (tracked_start host) hy
  constructor
  · intro h
    exact ⟨y, hiff.mp h⟩
  · rintro ⟨x, hx⟩
    have hr' := hx.mono fun _ _ _ => trivial
    exact (neverEarly_iff_run (tracked_start host) hr').mpr hx

/-- The time 10 comes with the notification for it pending. -/
theorem next_wait_ten {timer : Timer} (h : timer.timerEvent = some 10) :
    TimerThread.next ⟨⟨0, id, fun _ => 0⟩, timer, false⟩ (.wait ⟨10, id, fun _ => 0⟩) =
      some ⟨⟨10, id, fun _ => 0⟩, timer, false⟩ := by
  refine next_wait rfl (Nat.zero_le _) ?_
  intro d hd
  cases h.symm.trans hd
  exact le_rfl

theorem next_notified_ten {timer : Timer} (h : timer.timerEvent = some 10) :
    TimerThread.next ⟨⟨10, id, fun _ => 0⟩, timer, false⟩ .notified =
      some ⟨⟨10, id, fun _ => 0⟩, { timer with timerEvent := none }, true⟩ :=
  next_notified rfl h le_rfl

/-- The deadline 10 is armed and its interrupt comes. -/
theorem neverEarly_armed : NeverEarly boot
    [.access (cmpLo 10), .access (cmpHi 0), .wait ⟨10, id, fun _ => 0⟩, .notified, .irq] := by
  have hr : Run TimerThread.next (fun _ _ => True) boot
      [.access (cmpLo 10), .access (cmpHi 0), .wait ⟨10, id, fun _ => 0⟩, .notified, .irq] _ :=
    .cons trivial rfl (.cons trivial rfl (.cons trivial (next_wait_ten rfl)
      (.cons trivial (next_notified_ten rfl) (.cons trivial rfl (.nil _)))))
  refine (neverEarly_iff hr).mpr ⟨_, .cons nofun (next_of_thread rfl)
    (.cons nofun (next_of_thread rfl) (.cons nofun (next_of_thread (next_wait_ten rfl))
      (.cons nofun (next_of_thread (next_notified_ten rfl))
        (.cons ?_ (next_of_thread rfl) (.nil _)))))⟩
  intro _ d hd
  obtain rfl := List.mem_singleton.mp hd
  decide

/-- The program moves the comparator from 10 to all ones, and the interrupt comes at 10. -/
theorem not_neverEarly_disarmed :
    let tr : List TimerEvent := [.access (cmpLo 10), .access (cmpHi 0), .access (cmpLo 0xFFFFFFFF),
      .access (cmpHi 0xFFFFFFFF), .wait ⟨10, id, fun _ => 0⟩, .notified]
    (∃ l, Run TimerThread.next (fun _ _ => True) boot (tr ++ [.irq]) l) ∧
      ¬NeverEarly boot (tr ++ [.irq]) := by
  refine ⟨⟨_, .cons trivial rfl (.cons trivial rfl (.cons trivial rfl (.cons trivial rfl
    (.cons trivial (next_wait_ten rfl) (.cons trivial (next_notified_ten rfl)
      (.cons trivial rfl (.nil _)))))))⟩, fun h => ?_⟩
  have hl := h _ [] _ rfl (.cons trivial rfl (.cons trivial rfl (.cons trivial rfl
    (.cons trivial rfl (.cons trivial (next_wait_ten rfl)
      (.cons trivial (next_notified_ten rfl) (.nil _)))))))
  exact absurd hl (by decide)

end ArmedTimer

end RiscvTlm
