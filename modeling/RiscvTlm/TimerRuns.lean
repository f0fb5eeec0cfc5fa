import RiscvTlm.Lib.Transitions
import RiscvTlm.System

/-!
# Runs of the timer

The timer with the simulated time and the thread `Timer::run`, as a transition system: transactions
that arrive, time that passes, the kernel that notifies `timer_event` and the thread that then
signals `irq_line`. Time does not pass a pending notification, and it stands still while the thread
is woken. `Accessed` lists what a transaction can do to the registers and the event.
-/

namespace RiscvTlm

open Transitions

/-- The timer, the time and whether `timer_event` has woken `run`, which has not signalled yet. -/
structure TimerThread where
  host : Host
  timer : Timer
  woken : Bool

inductive TimerEvent
  | access (trans : Payload)
  | wait (host : Host)
  | notified
  | irq

namespace TimerThread

/-- The simulated time. -/
def now (l : TimerThread) : ℕ := l.host.timeStamp.toNat

/-- The timer as constructed, at time `host`. -/
def start (host : Host) : TimerThread := ⟨host, ⟨0, 0, none⟩, false⟩

def next (l : TimerThread) : TimerEvent → Option TimerThread
  | .access payload => some { l with timer := (l.timer.bTransport l.host payload).1 }
  | .wait host =>
    if l.woken = false ∧ l.now ≤ host.timeStamp.toNat ∧
        ∀ d ∈ l.timer.timerEvent, host.timeStamp.toNat ≤ d.toNat then
      some { l with host := host }
    else none
  | .notified =>
    if l.woken = false ∧ ∃ d ∈ l.timer.timerEvent, d.toNat ≤ l.now then
      some { l with timer := { l.timer with timerEvent := none }, woken := true }
    else none
  | .irq => if l.woken then some { l with woken := false } else none

end TimerThread

/-! ## Transactions -/

/-- A copy of four bytes. -/
theorem copyBytes_four (dest value : BitVec 32) : copyBytes dest (Bytes.byte value) 4 = value := by
  unfold copyBytes
  have hc : ∀ i < 4, (if i < 4 then Bytes.byte value i else Bytes.byte dest i) =
      Bytes.byte value i := fun i hi => if_pos hi
  rw [Bytes.ofBytes_congr hc]
  exact Bytes.ofBytes_byte (k := 4) value

namespace Payload

variable (trans : Payload)

/-- Every command but a write is answered as a read. -/
def Reads (address : ℕ) : Prop := trans.command ≠ .write ∧ trans.address.toNat = address

def Writes (address : ℕ) : Prop := trans.command = .write ∧ trans.address.toNat = address

instance (address : ℕ) : Decidable (trans.Reads address) :=
  inferInstanceAs (Decidable (_ ∧ _))

instance (address : ℕ) : Decidable (trans.Writes address) :=
  inferInstanceAs (Decidable (_ ∧ _))

/-- A write to one of the halves of `mtime`. -/
def WritesMtime : Prop :=
  trans.Writes TIMER_MEMORY_ADDRESS_LO ∨ trans.Writes TIMER_MEMORY_ADDRESS_HI

variable {trans} in
theorem not_writesMtime_of_command (h : trans.command ≠ .write) : ¬trans.WritesMtime := by
  rintro (hw | hw)
  · exact h hw.1
  · exact h hw.1

variable {trans} in
theorem not_writesMtime_of_address (hlo : trans.address.toNat ≠ TIMER_MEMORY_ADDRESS_LO)
    (hhi : trans.address.toNat ≠ TIMER_MEMORY_ADDRESS_HI) : ¬trans.WritesMtime := by
  rintro (hw | hw)
  · exact hlo hw.2
  · exact hhi hw.2

/-- The word a write brings. -/
def auxValue : BitVec 32 := copyBytes 0 (Bytes.byte trans.data) trans.dataLength

/-- A word read of the memory interface. -/
abbrev readWord (address : BitVec 64) (data : BitVec 32) : Payload :=
  MemoryInterface.trans .read address data 4

/-- A word write of the memory interface. -/
abbrev writeWord (address : BitVec 64) (data : BitVec 32) : Payload :=
  MemoryInterface.trans .write address data 4

@[simp] theorem auxValue_writeWord (address : BitVec 64) (data : BitVec 32) :
    (writeWord address data).auxValue = data := copyBytes_four 0 data

end Payload

namespace Timer

variable {timer timer' : Timer} {host : Host} {trans : Payload}

/-- The registers and the event after a transaction. -/
inductive Accessed (timer : Timer) (host : Host) (trans : Payload) : Timer → Prop
  | idle (hr : ¬trans.Reads TIMER_MEMORY_ADDRESS_LO) (hm : ¬trans.WritesMtime)
      (hl : ¬trans.Writes TIMERCMP_MEMORY_ADDRESS_LO)
      (hh : ¬trans.Writes TIMERCMP_MEMORY_ADDRESS_HI) : Accessed timer host trans timer
  | readLow (hr : trans.Reads TIMER_MEMORY_ADDRESS_LO) :
      Accessed timer host trans { timer with mtime := host.timeStamp }
  | mtime (hm : trans.WritesMtime) (value : BitVec 64) :
      Accessed timer host trans { timer with mtime := value }
  | cmpLow (hl : trans.Writes TIMERCMP_MEMORY_ADDRESS_LO) :
      Accessed timer host trans { timer with mtimecmp := setLow timer.mtimecmp trans.auxValue }
  | cmpHigh (hh : trans.Writes TIMERCMP_MEMORY_ADDRESS_HI) :
      Accessed timer host trans
        (notify { timer with mtimecmp := setHigh timer.mtimecmp trans.auxValue } host.timeStamp
          (setHigh timer.mtimecmp trans.auxValue - timer.mtime))

theorem bTransport_accessed (timer : Timer) (host : Host) (trans : Payload) :
    Accessed timer host trans (timer.bTransport host trans).1 := by
  unfold bTransport
  by_cases hc : trans.command = .write
  · rw [hc]
    have hr : ¬trans.Reads TIMER_MEMORY_ADDRESS_LO := fun h => h.1 hc
    dsimp only
    split_ifs with h₁ h₂ h₃ h₄
    · exact .mtime (.inl ⟨hc, h₁⟩) _
    · exact .mtime (.inr ⟨hc, h₂⟩) _
    · exact .cmpLow ⟨hc, h₃⟩
    · exact .cmpHigh ⟨hc, h₄⟩
    · exact .idle hr (Payload.not_writesMtime_of_address h₁ h₂) (fun h => h₃ h.2) (fun h => h₄ h.2)
  · have hm : ¬trans.WritesMtime := Payload.not_writesMtime_of_command hc
    have hidle (hr : trans.address.toNat ≠ TIMER_MEMORY_ADDRESS_LO) :
        Accessed timer host trans timer :=
      .idle (fun h => hr h.2) hm (fun h => hc h.1) (fun h => hc h.1)
    split
    · contradiction
    · dsimp only
      split_ifs with h₁ h₂ h₃ h₄
      · exact .readLow ⟨hc, h₁⟩
      all_goals exact hidle h₁

/-- A write to the high half of `mtimecmp` notifies the event. -/
theorem Accessed.eq_of_writesHigh (ha : Accessed timer host trans timer')
    (h : trans.Writes TIMERCMP_MEMORY_ADDRESS_HI) :
    timer' = notify { timer with mtimecmp := setHigh timer.mtimecmp trans.auxValue }
      host.timeStamp (setHigh timer.mtimecmp trans.auxValue - timer.mtime) := by
  cases ha with
  | cmpHigh => rfl
  | idle _ _ _ hh => exact absurd h hh
  | readLow hr => exact absurd h.1 hr.1
  | mtime hm =>
    refine absurd hm (Payload.not_writesMtime_of_address ?_ ?_)
    all_goals
      rw [h.2]
      decide
  | cmpLow hl => exact absurd (hl.2.symm.trans h.2) (by decide)

/-- Every other transaction leaves the event as it is. -/
theorem Accessed.timerEvent_eq (ha : Accessed timer host trans timer')
    (h : ¬trans.Writes TIMERCMP_MEMORY_ADDRESS_HI) : timer'.timerEvent = timer.timerEvent := by
  cases ha with
  | cmpHigh hh => exact absurd hh h
  | idle | readLow | mtime | cmpLow => rfl

/-! ## The halves of a register -/

/-- The 64-bit value of two words. -/
def word (high low : BitVec 32) : BitVec 64 := high ++ low

@[simp] theorem setWidth_word (high low : BitVec 32) : (word high low).setWidth 32 = low :=
  BitVec.setWidth_append_eq_right

@[simp] theorem high_word (high low : BitVec 32) : (word high low >>> 32).setWidth 32 = high := by
  unfold word
  apply BitVec.eq_of_getLsbD_eq
  intro i hi
  rw [BitVec.getLsbD_setWidth, BitVec.getLsbD_ushiftRight, BitVec.getLsbD_append]
  simp [hi]

@[simp] theorem word_halves (x : BitVec 64) :
    word ((x >>> 32).setWidth 32) (x.setWidth 32) = x := by
  unfold word
  apply BitVec.eq_of_getLsbD_eq
  intro i hi
  rw [BitVec.getLsbD_append, BitVec.getLsbD_setWidth, BitVec.getLsbD_setWidth,
    BitVec.getLsbD_ushiftRight]
  by_cases h : i < 32
  · simp [h]
  · have hlt : i - 32 < 32 := by omega
    simp [h, hlt, Nat.add_sub_cancel' (not_lt.mp h)]

theorem word_inj {high high' low low' : BitVec 32} :
    word high low = word high' low' ↔ high = high' ∧ low = low' := by
  constructor
  · intro h
    have hh := congrArg (fun x : BitVec 64 => (x >>> 32).setWidth 32) h
    have hl := congrArg (fun x : BitVec 64 => x.setWidth 32) h
    simp only [high_word, setWidth_word] at hh hl
    exact ⟨hh, hl⟩
  · rintro ⟨rfl, rfl⟩
    rfl

theorem setLow_eq (x : BitVec 64) (v : BitVec 32) :
    setLow x v = word ((x >>> 32).setWidth 32) v := by
  have hm : ∀ i < 64, (0xFFFFFFFF00000000#64).getLsbD i = decide (32 ≤ i) := by decide
  unfold setLow word
  apply BitVec.eq_of_getLsbD_eq
  intro i hi
  rw [BitVec.getLsbD_or, BitVec.getLsbD_and, hm i hi, BitVec.getLsbD_setWidth,
    BitVec.getLsbD_append, BitVec.getLsbD_setWidth, BitVec.getLsbD_ushiftRight]
  by_cases h : i < 32
  · simp [h, hi]
  · have hlt : i - 32 < 32 := by omega
    rw [BitVec.getLsbD_of_ge v i (not_lt.mp h)]
    simp [h, hlt, not_lt.mp h, Nat.add_sub_cancel' (not_lt.mp h)]

theorem setHigh_eq (x : BitVec 64) (v : BitVec 32) : setHigh x v = word v (x.setWidth 32) := by
  have hm : ∀ i < 64, (0x00000000FFFFFFFF#64).getLsbD i = decide (i < 32) := by decide
  unfold setHigh word
  apply BitVec.eq_of_getLsbD_eq
  intro i hi
  rw [BitVec.getLsbD_or, BitVec.getLsbD_and, hm i hi, BitVec.getLsbD_shiftLeft,
    BitVec.getLsbD_append, BitVec.getLsbD_setWidth, BitVec.getLsbD_setWidth]
  by_cases h : i < 32
  · simp [h]
  · have hlt : i - 32 < 64 := by omega
    simp [h, hi, hlt]

/-! ## The event -/

@[simp] theorem notify_mtime (timer : Timer) (now delay : BitVec 64) :
    (timer.notify now delay).mtime = timer.mtime := by
  unfold notify
  dsimp only
  split
  · split <;> rfl
  · rfl

@[simp] theorem notify_mtimecmp (timer : Timer) (now delay : BitVec 64) :
    (timer.notify now delay).mtimecmp = timer.mtimecmp := by
  unfold notify
  dsimp only
  split
  · split <;> rfl
  · rfl

/-- Without a pending notification the event is notified after the delay. -/
theorem notify_of_none (timer : Timer) (h : timer.timerEvent = none) (now delay : BitVec 64) :
    (timer.notify now delay).timerEvent = some (now + delay) := by
  unfold notify
  rw [h]

/-- Of two notifications the earlier one is kept. -/
theorem notify_of_some (timer : Timer) {d : BitVec 64} (h : timer.timerEvent = some d)
    (now delay : BitVec 64) :
    (timer.notify now delay).timerEvent = some (if d ≤ now + delay then d else now + delay) := by
  unfold notify
  rw [h]
  dsimp only
  split
  · exact h
  · rfl

@[simp] theorem setWidth_setHigh (x : BitVec 64) (v : BitVec 32) :
    (setHigh x v).setWidth 32 = x.setWidth 32 := by rw [setHigh_eq, setWidth_word]

end Timer

/-! ## Steps -/

namespace TimerEvent

/-- A read of the low word of `mtime`, which refreshes the register. -/
def ReadsLow : TimerEvent → Prop
  | .access payload => payload.Reads TIMER_MEMORY_ADDRESS_LO
  | _ => False

def WritesMtime : TimerEvent → Prop
  | .access payload => payload.WritesMtime
  | _ => False

def WritesCmpLow : TimerEvent → Prop
  | .access payload => payload.Writes TIMERCMP_MEMORY_ADDRESS_LO
  | _ => False

end TimerEvent

namespace TimerThread

variable {l l' : TimerThread} {e : TimerEvent} {tr : List TimerEvent}

/-- Neither refreshes nor writes `mtime`. -/
def KeepsMtime (_ : TimerThread) (e : TimerEvent) : Prop := ¬e.ReadsLow ∧ ¬e.WritesMtime

/-- Events that do not write `mtime`. -/
def SparesMtime (_ : TimerThread) (e : TimerEvent) : Prop := ¬e.WritesMtime

/-- The steps, by what they do. -/
inductive Step (l : TimerThread) : TimerEvent → TimerThread → Prop
  | access {payload : Payload} {timer : Timer} (h : l.timer.Accessed l.host payload timer) :
      Step l (.access payload) { l with timer := timer }
  | wait {host : Host} (hw : l.woken = false) (hle : l.now ≤ host.timeStamp.toNat)
      (hd : ∀ d ∈ l.timer.timerEvent, host.timeStamp.toNat ≤ d.toNat) :
      Step l (.wait host) { l with host := host }
  | notified {d : BitVec 64} (hw : l.woken = false) (hd : l.timer.timerEvent = some d)
      (hle : d.toNat ≤ l.now) :
      Step l .notified { l with timer := { l.timer with timerEvent := none }, woken := true }
  | irq (hw : l.woken = true) : Step l .irq { l with woken := false }

theorem step_of_next (h : l.next e = some l') : Step l e l' := by
  cases e with
  | access payload =>
    cases h
    exact .access (Timer.bTransport_accessed _ _ _)
  | wait host =>
    obtain ⟨⟨hw, hle, hd⟩, hl⟩ := Option.ite_none_right_eq_some.mp h
    cases hl
    exact .wait hw hle hd
  | notified =>
    obtain ⟨⟨hw, d, hd, hle⟩, hl⟩ := Option.ite_none_right_eq_some.mp h
    cases hl
    exact .notified hw hd hle
  | irq =>
    obtain ⟨hw, hl⟩ := Option.ite_none_right_eq_some.mp h
    cases hl
    exact .irq hw

theorem next_wait {host : Host} (hw : l.woken = false) (hle : l.now ≤ host.timeStamp.toNat)
    (hd : ∀ d ∈ l.timer.timerEvent, host.timeStamp.toNat ≤ d.toNat) :
    l.next (.wait host) = some { l with host := host } := if_pos ⟨hw, hle, hd⟩

theorem next_notified {d : BitVec 64} (hw : l.woken = false) (hd : l.timer.timerEvent = some d)
    (hle : d.toNat ≤ l.now) :
    l.next .notified =
      some { l with timer := { l.timer with timerEvent := none }, woken := true } :=
  if_pos ⟨hw, d, hd, hle⟩

/-- `mtime` changes only when its low word is read or one of its halves is written. -/
theorem mtime_of_next (h : l.next e = some l') (hr : ¬e.ReadsLow) (hm : ¬e.WritesMtime) :
    l'.timer.mtime = l.timer.mtime := by
  cases step_of_next h with
  | access ha =>
    cases ha with
    | readLow hr' => exact absurd hr' hr
    | mtime hm' => exact absurd hm' hm
    | idle | cmpLow => rfl
    | cmpHigh => exact Timer.notify_mtime _ _ _
  | wait | notified | irq => rfl

theorem mtime_of_run (h : Run next KeepsMtime l tr l') :
    l'.timer.mtime = l.timer.mtime := by
  refine h.invariant (I := fun l' => l'.timer.mtime = l.timer.mtime) ?_ rfl
  intro l₁ e l₂ hl hP hn
  rw [mtime_of_next hn hP.1 hP.2, hl]

/-- Time does not go back. -/
theorem now_le_of_next (h : l.next e = some l') : l.now ≤ l'.now := by
  cases step_of_next h with
  | wait hw hle hd => exact hle
  | access | notified | irq => exact le_rfl

theorem now_le_of_run {P : TimerThread → TimerEvent → Prop} (h : Run next P l tr l') :
    l.now ≤ l'.now := by
  refine h.invariant (I := fun l' => l.now ≤ l'.now) ?_ le_rfl
  intro l₁ e l₂ hl _ hn
  exact hl.trans (now_le_of_next hn)

/-- A read of the low word sets `mtime` to the time. -/
theorem mtime_of_readsLow (h : l.next e = some l') (hr : e.ReadsLow) :
    l'.timer.mtime = l.host.timeStamp ∧ l'.host = l.host := by
  cases step_of_next h with
  | access ha =>
    cases ha with
    | readLow => exact ⟨rfl, rfl⟩
    | idle hr' => exact absurd hr hr'
    | mtime hm => exact absurd hm (Payload.not_writesMtime_of_command hr.1)
    | cmpLow hw => exact absurd hw.1 hr.1
    | cmpHigh hw => exact absurd hw.1 hr.1
  | wait | notified | irq => exact hr.elim

/-- Unless the program writes `mtime`, the register holds a past time, and a later one after each
step. -/
theorem mtime_le_of_next (h : l.next e = some l') (hm : ¬e.WritesMtime)
    (hl : l.timer.mtime.toNat ≤ l.now) :
    l.timer.mtime.toNat ≤ l'.timer.mtime.toNat ∧ l'.timer.mtime.toNat ≤ l'.now := by
  by_cases hr : e.ReadsLow
  · obtain ⟨ht, hh⟩ := mtime_of_readsLow h hr
    unfold now
    rw [ht, hh]
    exact ⟨hl, le_rfl⟩
  · rw [mtime_of_next h hr hm]
    exact ⟨le_rfl, hl.trans (now_le_of_next h)⟩

theorem mtime_le_of_run (h : Run next SparesMtime l tr l')
    (hl : l.timer.mtime.toNat ≤ l.now) :
    l.timer.mtime.toNat ≤ l'.timer.mtime.toNat ∧ l'.timer.mtime.toNat ≤ l'.now := by
  refine h.invariant (I := fun l' => l.timer.mtime.toNat ≤ l'.timer.mtime.toNat ∧
    l'.timer.mtime.toNat ≤ l'.now) ?_ ⟨le_rfl, hl⟩
  intro l₁ e l₂ hl₁ hm hn
  obtain ⟨h₁, h₂⟩ := mtime_le_of_next hn hm hl₁.2
  exact ⟨hl₁.1.trans h₁, h₂⟩

/-- Only a write to it changes the low half of `mtimecmp`. -/
theorem cmpLow_of_next (h : l.next e = some l') (hl : ¬e.WritesCmpLow) :
    l'.timer.mtimecmp.setWidth 32 = l.timer.mtimecmp.setWidth 32 := by
  cases step_of_next h with
  | access ha =>
    cases ha with
    | cmpLow hl' => exact absurd hl' hl
    | idle | readLow | mtime => rfl
    | cmpHigh =>
      rw [Timer.notify_mtimecmp]
      exact Timer.setWidth_setHigh _ _
  | wait | notified | irq => rfl

end TimerThread

end RiscvTlm
