import RiscvTlm.TimerRuns

/-!
# The deadline of the timer

A write to the high half of `mtimecmp` notifies the event after `mtimecmp - mtime`, where `mtime` is
the time of the last read of its low half. From this follow when the notification is for the
deadline written, which order of the two writes leaves it for the value of both, and when an earlier
deadline goes off although the program has moved the comparator.
-/

namespace RiscvTlm

open Transitions Timer

namespace TimerThread

variable {l l' : TimerThread} {e : TimerEvent} {tr tr' : List TimerEvent} {host : Host}
  {lo hi : BitVec 32} {payload : Payload}

/-- The state after a transaction. -/
def accessed (l : TimerThread) (payload : Payload) : TimerThread :=
  { l with timer := (l.timer.bTransport l.host payload).1 }

/-- A write of the low half of `mtimecmp`. -/
abbrev cmpLo (lo : BitVec 32) : Payload := .writeWord 0x40004008 lo

/-- A write of the high half of `mtimecmp`. -/
abbrev cmpHi (hi : BitVec 32) : Payload := .writeWord 0x4000400C hi

theorem accessed_cmpLo (l : TimerThread) (lo : BitVec 32) :
    l.accessed (cmpLo lo) =
      { l with timer := { l.timer with
          mtimecmp := word ((l.timer.mtimecmp >>> 32).setWidth 32) lo } } := by
  have h : l.accessed (cmpLo lo) =
      { l with timer := { l.timer with
          mtimecmp := setLow l.timer.mtimecmp (cmpLo lo).auxValue } } := rfl
  rw [h, Payload.auxValue_writeWord, setLow_eq]

/-- The timer after the write, before the event is notified. -/
def withHigh (timer : Timer) (hi : BitVec 32) : Timer :=
  { timer with mtimecmp := word hi (timer.mtimecmp.setWidth 32) }

theorem accessed_cmpHi (l : TimerThread) (hi : BitVec 32) :
    l.accessed (cmpHi hi) =
      { l with
        timer := (withHigh l.timer hi).notify l.host.timeStamp
          ((withHigh l.timer hi).mtimecmp - l.timer.mtime) } := by
  have h : l.accessed (cmpHi hi) =
      { l with
        timer := Timer.notify
          { l.timer with mtimecmp := setHigh l.timer.mtimecmp (cmpHi hi).auxValue }
          l.host.timeStamp (setHigh l.timer.mtimecmp (cmpHi hi).auxValue - l.timer.mtime) } := rfl
  rw [h, Payload.auxValue_writeWord, setHigh_eq]
  rfl

theorem accessed_cmpHi_mtimecmp (l : TimerThread) (hi : BitVec 32) :
    (l.accessed (cmpHi hi)).timer.mtimecmp = word hi (l.timer.mtimecmp.setWidth 32) := by
  rw [accessed_cmpHi]
  exact notify_mtimecmp _ _ _

/-- Without a pending notification the write leaves one after the remaining time. -/
theorem accessed_cmpHi_timerEvent (hn : l.timer.timerEvent = none) (hi : BitVec 32) :
    (l.accessed (cmpHi hi)).timer.timerEvent =
      some (l.host.timeStamp + (word hi (l.timer.mtimecmp.setWidth 32) - l.timer.mtime)) := by
  rw [accessed_cmpHi]
  exact notify_of_none (withHigh l.timer hi) hn _ _

/-! ## The order of the two writes -/

/-- Both orders of the two writes leave the value and its notification, and nothing else. -/
def EitherOrder (l : TimerThread) (lo hi : BitVec 32) : Prop :=
  ∀ l', l' = (l.accessed (cmpLo lo)).accessed (cmpHi hi) ∨
      l' = (l.accessed (cmpHi hi)).accessed (cmpLo lo) →
    l'.timer.mtimecmp = word hi lo ∧
      l'.timer.timerEvent = some (l.host.timeStamp + (word hi lo - l.timer.mtime))

/-- With no notification pending, the order of the two writes does not matter exactly when the low
half holds its value already. -/
theorem eitherOrder_iff (hn : l.timer.timerEvent = none) (lo hi : BitVec 32) :
    EitherOrder l lo hi ↔ l.timer.mtimecmp.setWidth 32 = lo := by
  have hll : ∀ l : TimerThread, (l.accessed (cmpLo lo)).timer.mtimecmp.setWidth 32 = lo := by
    intro l
    rw [accessed_cmpLo]
    exact setWidth_word _ _
  -- the high half last: the value is complete when the event is notified
  have hlh : ((l.accessed (cmpLo lo)).accessed (cmpHi hi)).timer.mtimecmp = word hi lo ∧
      ((l.accessed (cmpLo lo)).accessed (cmpHi hi)).timer.timerEvent =
        some (l.host.timeStamp + (word hi lo - l.timer.mtime)) := by
    have hn' : (l.accessed (cmpLo lo)).timer.timerEvent = none := by
      rw [accessed_cmpLo]
      exact hn
    rw [accessed_cmpHi_mtimecmp, accessed_cmpHi_timerEvent hn', hll]
    rw [accessed_cmpLo]
    exact ⟨rfl, rfl⟩
  -- the high half first: the event is notified for the old low half
  have hhl : ((l.accessed (cmpHi hi)).accessed (cmpLo lo)).timer.mtimecmp = word hi lo ∧
      ((l.accessed (cmpHi hi)).accessed (cmpLo lo)).timer.timerEvent =
        some (l.host.timeStamp + (word hi (l.timer.mtimecmp.setWidth 32) - l.timer.mtime)) := by
    rw [accessed_cmpLo]
    refine ⟨?_, accessed_cmpHi_timerEvent hn hi⟩
    show word _ lo = _
    rw [accessed_cmpHi_mtimecmp, high_word]
  constructor
  · intro h
    have he := (h _ (.inr rfl)).2
    rw [hhl.2] at he
    have hw := sub_left_injective (add_right_injective _ (Option.some_inj.mp he))
    exact (word_inj.mp hw).2
  · rintro h l' (rfl | rfl)
    · exact hlh
    · rw [h] at hhl
      exact hhl

/-- The timer at time 0. -/
def boot : TimerThread := start ⟨0, id, fun _ => 0⟩

/-- The low half is written again. -/
theorem eitherOrder_rewritten : EitherOrder (boot.accessed (cmpLo 5)) 5 7 :=
  (eitherOrder_iff rfl 5 7).mpr rfl

/-- The notification is for the time 0 instead of 5. -/
theorem not_eitherOrder_boot : ¬EitherOrder boot 5 0 := by
  intro h
  have he := (h _ (.inr rfl)).2
  have h0 : ((boot.accessed (cmpHi 0)).accessed (cmpLo 5)).timer.timerEvent = some 0 := by decide
  rw [h0] at he
  exact absurd he (by decide)

/-! ## The absolute time of a notification -/

/-- The write of the high half has the event notified at the time `c`, or at once when it has
passed. -/
def ScheduledFor (l : TimerThread) (hi : BitVec 32) (c : BitVec 64) : Prop :=
  ∃ d, (l.accessed (cmpHi hi)).timer.timerEvent = some d ∧
    max l.now d.toNat = max l.now c.toNat

/-- The low half is the one written last. -/
theorem cmpLow_of_run {P : TimerThread → TimerEvent → Prop} {l₀ : TimerThread}
    (hr : Run next P l₀ (tr ++ .access (cmpLo lo) :: tr') l) (h : ∀ e ∈ tr', ¬e.WritesCmpLow) :
    l.timer.mtimecmp.setWidth 32 = lo := by
  obtain ⟨l₁, -, hr₁⟩ := hr.exists_of_append
  cases hr₁ with
  | cons _ hn hr₂ =>
    cases hn
    refine (hr₂.and_mem h).invariant (I := fun l => l.timer.mtimecmp.setWidth 32 = lo) ?_ ?_
    · intro l₂ e l₃ hl hP hn
      rw [cmpLow_of_next hn hP.2, hl]
    · show (l₁.accessed (cmpLo lo)).timer.mtimecmp.setWidth 32 = lo
      rw [accessed_cmpLo]
      exact setWidth_word _ _

/-- The time that the delay `c - m` from `t` leads to. -/
theorem max_add_sub_iff {t m c : BitVec 64} (hm : m.toNat ≤ t.toNat) :
    max t.toNat (t + (c - m)).toNat = max t.toNat c.toNat ↔
      m = t ∨ c.toNat ≤ m.toNat ∨
        c.toNat ≤ t.toNat ∧ 2 ^ 64 ≤ c.toNat + (t.toNat - m.toNat) := by
  have hd : (t + (c - m)).toNat = (t.toNat - m.toNat + c.toNat) % 2 ^ 64 := by
    rw [BitVec.toNat_add, BitVec.toNat_sub]
    omega
  have ht := t.isLt
  have hc := c.isLt
  rw [hd, ← BitVec.toNat_inj]
  omega

/-- In every run without a write to `mtime`, the event is scheduled for the value written exactly
when `mtime` was read at this very time, or when the deadline had passed at that read, or when it
has passed since and the sum wraps around. -/
theorem scheduledFor_iff
    (hr : Run next SparesMtime (start host) (tr ++ .access (cmpLo lo) :: tr') l)
    (h : ∀ e ∈ tr', ¬e.WritesCmpLow) (hn : l.timer.timerEvent = none) (hi : BitVec 32) :
    ScheduledFor l hi (word hi lo) ↔
      l.timer.mtime = l.host.timeStamp ∨ (word hi lo).toNat ≤ l.timer.mtime.toNat ∨
        (word hi lo).toNat ≤ l.now ∧
          2 ^ 64 ≤ (word hi lo).toNat + (l.now - l.timer.mtime.toNat) := by
  have hm : l.timer.mtime.toNat ≤ l.now := (mtime_le_of_run hr (Nat.zero_le _)).2
  have he := accessed_cmpHi_timerEvent hn hi
  rw [cmpLow_of_run hr h] at he
  refine Iff.trans ?_ (max_add_sub_iff hm)
  constructor
  · rintro ⟨d, hd, hmax⟩
    rw [he] at hd
    cases hd
    exact hmax
  · intro hmax
    exact ⟨_, he, hmax⟩

theorem sparesMtime_cmpLo (l : TimerThread) (lo : BitVec 32) : l.SparesMtime (.access (cmpLo lo)) :=
  show ¬(cmpLo lo).WritesMtime from Payload.not_writesMtime_of_address
    (show 0x40004008 ≠ 0x40004000 by decide) (show 0x40004008 ≠ 0x40004004 by decide)

/-- The timer after a wait of 100. -/
def waited : TimerThread := ⟨⟨100, id, fun _ => 0⟩, ⟨0, 0, none⟩, false⟩

theorem boot_waited : boot.next (.wait ⟨100, id, fun _ => 0⟩) = some waited :=
  next_wait rfl (by decide) nofun

/-- `mtime` is read at the time at which the deadline 150 is written. -/
theorem scheduledFor_read :
    ScheduledFor ((waited.accessed (.readWord 0x40004000 0)).accessed (cmpLo 150)) 0
      (word 0 150) := by
  have hr : Run next SparesMtime boot
      ([.wait ⟨100, id, fun _ => 0⟩, .access (.readWord 0x40004000 0)] ++
        .access (cmpLo 150) :: []) _ :=
    .cons id boot_waited (.cons (Payload.not_writesMtime_of_command nofun) rfl
      (.cons (sparesMtime_cmpLo _ _) rfl (.nil _)))
  exact (scheduledFor_iff hr nofun rfl 0).mpr (.inl rfl)

/-- `mtime` was never read: at the time 100 the deadline 150 leads to a notification at 250. -/
theorem not_scheduledFor_unread :
    Run next SparesMtime boot [.wait ⟨100, id, fun _ => 0⟩, .access (cmpLo 150)]
        (waited.accessed (cmpLo 150)) ∧
      ¬ScheduledFor (waited.accessed (cmpLo 150)) 0 (word 0 150) := by
  refine ⟨.cons id boot_waited (.cons (sparesMtime_cmpLo _ _) rfl (.nil _)), ?_⟩
  rintro ⟨d, hd, hmax⟩
  have he : ((waited.accessed (cmpLo 150)).accessed (cmpHi 0)).timer.timerEvent = some 250 := by
    decide
  rw [he] at hd
  cases hd
  exact absurd hmax (by decide)

end TimerThread

end RiscvTlm
