import RiscvTlm.TimerRuns

/-!
# Reading the time in two halves

A read of the low word of `mtime` refreshes the register and the high word is read from it, so the
two words belong together as long as nothing else refreshes or writes the register in between. The
loop that reads high, low, high until the high words agree returns the time of its low read; when
the program does not write `mtime` this holds even if interrupt handlers read the time in between.
-/

namespace RiscvTlm

open Transitions Timer

namespace TimerThread

variable {l l' l₁ l₂ : TimerThread} {tr : List TimerEvent} {data data' : BitVec 32}
  {P Q : TimerThread → TimerEvent → Prop}

/-- The word that a read returns. -/
def answer (l : TimerThread) (trans : Payload) : BitVec 32 :=
  (l.timer.bTransport l.host trans).2.data

/-- A read of the low word of `mtime`. -/
abbrev readLo (data : BitVec 32) : Payload := .readWord 0x40004000 data

/-- A read of the high word of `mtime`. -/
abbrev readHi (data : BitVec 32) : Payload := .readWord 0x40004004 data

theorem answer_readLo (l : TimerThread) (data : BitVec 32) :
    l.answer (readLo data) = l.host.timeStamp.setWidth 32 := copyBytes_four _ _

theorem answer_readHi (l : TimerThread) (data : BitVec 32) :
    l.answer (readHi data) = (l.timer.mtime >>> 32).setWidth 32 := copyBytes_four _ _

/-- The register after a read of its low word. -/
theorem mtime_of_readLo (h : l.next (.access (readLo data)) = some l') :
    l'.timer.mtime = l.host.timeStamp := by
  cases h
  rfl

/-- A read of the high word leaves the timer as it is. -/
theorem eq_of_readHi (h : l.next (.access (readHi data)) = some l') : l' = l := by
  cases h
  rfl

/-- The words that belong to one read of the low word make the time of that read. -/
theorem word_of_readLo (hl : l.next (.access (readLo data)) = some l₁)
    (hr : Run next KeepsMtime l₁ tr l₂) :
    word (l₂.answer (readHi data')) (l.answer (readLo data)) = l.host.timeStamp := by
  have hm : l₂.timer.mtime = l.host.timeStamp := (mtime_of_run hr).trans (mtime_of_readLo hl)
  rw [answer_readHi, answer_readLo, hm, word_halves]

/-! ## The retry loop -/

/-- One pass of the loop from `l` to `l'`: the three words it reads and the time of its low read.
Between its reads other events happen, before the low read those that `P` allows and after it those
that `Q` allows. -/
structure Pass (P Q : TimerThread → TimerEvent → Prop) (l : TimerThread)
    (high low high' : BitVec 32) (time : BitVec 64) (l' : TimerThread) : Prop where
  reads : ∃ l₁ l₂ l₃ l₄ l₅ tr₀ tr₁ tr₂ d₁ d₂ d₃,
    (Run next P l tr₀ l₁ ∧ l₁.next (.access (readHi d₁)) = some l₂ ∧
      l₁.answer (readHi d₁) = high) ∧
    (Run next P l₂ tr₁ l₃ ∧ l₃.next (.access (readLo d₂)) = some l₄ ∧
      l₃.answer (readLo d₂) = low ∧ l₃.host.timeStamp = time) ∧
    (Run next Q l₄ tr₂ l₅ ∧ l₅.next (.access (readHi d₃)) = some l' ∧
      l₅.answer (readHi d₃) = high')

/-- The loop ends with the first pass whose high words agree. -/
inductive RetryLoop (P Q : TimerThread → TimerEvent → Prop) :
    TimerThread → BitVec 64 → BitVec 64 → TimerThread → Prop
  | accept {l l' : TimerThread} {high low : BitVec 32} {time : BitVec 64}
      (h : Pass P Q l high low high time l') :
      RetryLoop P Q l (word high low) time l'
  | retry {l l₁ l' : TimerThread} {high low high' : BitVec 32} {value time time' : BitVec 64}
      (h : Pass P Q l high low high' time' l₁) (hne : high ≠ high')
      (hr : RetryLoop P Q l₁ value time l') : RetryLoop P Q l value time l'

/-- Without another read of the low word after its own, a pass returns the time of that read in its
last two words. -/
theorem Pass.word_eq {high low high' : BitVec 32} {time : BitVec 64}
    (h : Pass P KeepsMtime l high low high' time l') : word high' low = time := by
  obtain ⟨l₁, l₂, l₃, l₄, l₅, tr₀, tr₁, tr₂, d₁, d₂, d₃, -, ⟨-, hlo, rfl, rfl⟩, h₂, -, rfl⟩ := h
  exact word_of_readLo hlo h₂

/-- The high word of a time between two times with the same high word. -/
theorem high_eq_of_le {x y z : BitVec 64} (hxy : x.toNat ≤ y.toNat) (hyz : y.toNat ≤ z.toNat)
    (h : (x >>> 32).setWidth 32 = (z >>> 32).setWidth 32) :
    (x >>> 32).setWidth 32 = (y >>> 32).setWidth 32 := by
  have hn (v : BitVec 64) : ((v >>> 32).setWidth 32 : BitVec 32).toNat = v.toNat / 2 ^ 32 := by
    rw [BitVec.toNat_setWidth, BitVec.toNat_ushiftRight, Nat.shiftRight_eq_div_pow]
    exact Nat.mod_eq_of_lt (Nat.div_lt_of_lt_mul v.isLt)
  rw [← BitVec.toNat_inj, hn, hn] at h ⊢
  exact le_antisymm (Nat.div_le_div_right hxy) (h ▸ Nat.div_le_div_right hyz)

/-- A pass that is accepted returns the time of its low read as long as nobody writes `mtime`. -/
theorem Pass.word_eq_of_accepted {high low : BitVec 32} {time : BitVec 64}
    (h : Pass SparesMtime SparesMtime l high low high time l')
    (hl : l.timer.mtime.toNat ≤ l.now) : word high low = time := by
  obtain ⟨l₁, l₂, l₃, l₄, l₅, tr₀, tr₁, tr₂, d₁, d₂, d₃, ⟨h₀, hhi, hhigh⟩,
    ⟨h₁, hlo, rfl, rfl⟩, h₂, hhi', hhigh'⟩ := h
  cases eq_of_readHi hhi
  rw [answer_readHi] at hhigh hhigh'
  obtain ⟨ht, hh⟩ := mtime_of_readsLow hlo ⟨nofun, rfl⟩
  -- the cached time, the low read and the second high read are in this order
  have hl₁ := (mtime_le_of_run h₀ hl).2
  have h₁₃ : l₁.timer.mtime.toNat ≤ l₃.host.timeStamp.toNat := hl₁.trans (now_le_of_run h₁)
  have h₃₅ : l₃.host.timeStamp.toNat ≤ l₅.timer.mtime.toNat := by
    rw [← ht]
    refine (mtime_le_of_run h₂ ?_).1
    rw [now, ht, hh]
  rw [answer_readLo, ← hhigh, high_eq_of_le h₁₃ h₃₅ (hhigh.trans hhigh'.symm), word_halves]

/-- The cached time stays a past time through a pass. -/
theorem Pass.mtime_le {high low high' : BitVec 32} {time : BitVec 64}
    (h : Pass SparesMtime SparesMtime l high low high' time l')
    (hl : l.timer.mtime.toNat ≤ l.now) : l'.timer.mtime.toNat ≤ l'.now := by
  obtain ⟨l₁, l₂, l₃, l₄, l₅, tr₀, tr₁, tr₂, d₁, d₂, d₃, ⟨h₀, hhi, -⟩, ⟨h₁, hlo, -, -⟩,
    h₂, hhi', -⟩ := h
  cases eq_of_readHi hhi
  cases eq_of_readHi hhi'
  have hwrite : ¬(readLo d₂).WritesMtime := Payload.not_writesMtime_of_command nofun
  have hl₁ := (mtime_le_of_run h₀ hl).2
  have hl₃ := (mtime_le_of_run h₁ hl₁).2
  exact (mtime_le_of_run h₂ (mtime_le_of_next hlo hwrite hl₃).2).2

theorem RetryLoop.eq_time {value time : BitVec 64}
    (h : RetryLoop P KeepsMtime l value time l') : value = time := by
  induction h with
  | accept h => exact h.word_eq
  | retry _ _ _ ih => exact ih

theorem RetryLoop.eq_time_of_le {value time : BitVec 64}
    (h : RetryLoop SparesMtime SparesMtime l value time l')
    (hl : l.timer.mtime.toNat ≤ l.now) : value = time := by
  induction h with
  | accept h => exact h.word_eq_of_accepted hl
  | retry h _ _ ih => exact ih (h.mtime_le hl)

/-- The words of a low read and of the high reads up to the next refresh make the time of the low
read. The retry loop returns the time of a low read: with any events before the low read of a pass
as long as none refreshes or writes `mtime` after it, and in a run in which nobody writes `mtime`
with any other events. -/
theorem time_not_torn (l : TimerThread) :
    (∀ {data data' l₁ l₂ tr}, l.next (.access (readLo data)) = some l₁ →
      Run next KeepsMtime l₁ tr l₂ →
        word (l₂.answer (readHi data')) (l.answer (readLo data)) = l.host.timeStamp) ∧
    (∀ {value time l'}, RetryLoop (fun _ _ => True) KeepsMtime l value time l' →
      value = time) ∧
    (∀ {host tr value time l'}, Run next SparesMtime (start host) tr l →
      RetryLoop SparesMtime SparesMtime l value time l' → value = time) := by
  refine ⟨word_of_readLo, RetryLoop.eq_time, fun hs h => h.eq_time_of_le ?_⟩
  exact (mtime_le_of_run hs (Nat.zero_le _)).2

/-- The low word rolls over between the two reads of a word each, and in the first pass of a loop,
which is made again. -/
theorem time_not_torn_rollover :
    let l := start ⟨0xFFFFFFFF, id, fun _ => 0⟩
    (∃ l₁ l₂, l.next (.access (readLo 0)) = some l₁ ∧
      l₁.next (.wait ⟨0x100000005, id, fun _ => 0⟩) = some l₂ ∧
      word (l₂.answer (readHi 0)) (l.answer (readLo 0)) = 0xFFFFFFFF) ∧
    ∃ l', RetryLoop SparesMtime SparesMtime l (word 1 5) 0x100000005 l' ∧
      word 1 5 = 0x100000005 := by
  intro l
  -- before the refresh, and after it
  have hlo : l.next (.access (readLo 0)) = some ⟨l.host, ⟨0xFFFFFFFF, 0, none⟩, false⟩ := rfl
  have hw : next ⟨l.host, ⟨0xFFFFFFFF, 0, none⟩, false⟩ (.wait ⟨0x100000005, id, fun _ => 0⟩) =
      some ⟨⟨0x100000005, id, fun _ => 0⟩, ⟨0xFFFFFFFF, 0, none⟩, false⟩ :=
    next_wait rfl (by decide) nofun
  refine ⟨⟨_, _, hlo, hw, (time_not_torn _).1 hlo (.cons ⟨id, id⟩ hw (.nil _))⟩, ?_⟩
  have hwait : l.next (.wait ⟨0x100000005, id, fun _ => 0⟩) =
      some ⟨⟨0x100000005, id, fun _ => 0⟩, ⟨0, 0, none⟩, false⟩ :=
    next_wait rfl (by decide) nofun
  have hpass : Pass SparesMtime SparesMtime l 0 5 1 0x100000005
      ⟨⟨0x100000005, id, fun _ => 0⟩, ⟨0x100000005, 0, none⟩, false⟩ := by
    refine ⟨_, _, _, _, _, [], [.wait ⟨0x100000005, id, fun _ => 0⟩], [], 0, 0, 0,
      ⟨.nil _, rfl, ?_⟩, ⟨.cons id hwait (.nil _), rfl, ?_, rfl⟩, .nil _, rfl, ?_⟩
    · exact (answer_readHi _ _).trans (by decide)
    · exact (answer_readLo _ _).trans (by decide)
    · exact (answer_readHi _ _).trans (by decide)
  have hpass' : Pass SparesMtime SparesMtime
      ⟨⟨0x100000005, id, fun _ => 0⟩, ⟨0x100000005, 0, none⟩, false⟩ 1 5 1 0x100000005
      ⟨⟨0x100000005, id, fun _ => 0⟩, ⟨0x100000005, 0, none⟩, false⟩ := by
    refine ⟨_, _, _, _, _, [], [], [], 0, 0, 0, ⟨.nil _, rfl, ?_⟩, ⟨.nil _, rfl, ?_, rfl⟩,
      .nil _, rfl, ?_⟩
    · exact (answer_readHi _ _).trans (by decide)
    · exact (answer_readLo _ _).trans (by decide)
    · exact (answer_readHi _ _).trans (by decide)
  have hloop := RetryLoop.retry hpass (by decide) (.accept hpass')
  exact ⟨_, hloop, (time_not_torn l).2.2 (.nil _) hloop⟩

end TimerThread

end RiscvTlm
