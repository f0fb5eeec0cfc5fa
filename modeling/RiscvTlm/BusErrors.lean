import RiscvTlm.Steps

/-!
# Error responses on the bus

Which accesses of the CPU the selected target rejects, and what the CPU sees of it: the bus
controller replaces the status, so a rejected read returns the old contents of the variable and a
rejected write is dropped.
-/

namespace RiscvTlm

open Prog

variable {T : CpuType} {s : System T} {bus : Bus} {host : Host} {trans : Payload}

/-! ## The selected target -/

/-- What a word address selects; from `TO_HOST_ADDRESS` on there is no target. -/
inductive Target
  | memory
  | timer
  | trace
  | toHost
  deriving DecidableEq, Repr

def Target.select (addr : ℕ) : Target :=
  if addr / 4 ≥ TO_HOST_ADDRESS / 4 then .toHost
  else if addr / 4 = TIMER_MEMORY_ADDRESS_HI / 4 ∨ addr / 4 = TIMER_MEMORY_ADDRESS_LO / 4 ∨
      addr / 4 = TIMERCMP_MEMORY_ADDRESS_HI / 4 ∨ addr / 4 = TIMERCMP_MEMORY_ADDRESS_LO / 4 then
    .timer
  else if addr / 4 = TRACE_MEMORY_ADDRESS / 4 then .trace
  else .memory

/-- The transaction as the selected target returns it, before the controller touches its status. -/
def response (bus : Bus) (host : Host) (trans : Payload) : Except Fault Payload :=
  match Target.select trans.address.toNat with
  | .toHost => .ok trans
  | .timer => .ok (bus.timer.bTransport host trans).2
  | .trace => .ok (bus.trace.bTransport trans).2
  | .memory => (bus.memory.bTransport trans).map Prod.snd

/-- The selected target answers with an error and transfers no data. -/
def Rejected (bus : Bus) (host : Host) (trans : Payload) : Prop :=
  ∃ p, response bus host trans = .ok p ∧ p.isResponseError = true ∧ p.data = trans.data

/-- The addresses of the timer registers. -/
def timerAddresses : List ℕ :=
  [TIMER_MEMORY_ADDRESS_LO, TIMER_MEMORY_ADDRESS_HI, TIMERCMP_MEMORY_ADDRESS_LO,
    TIMERCMP_MEMORY_ADDRESS_HI]

/-- The addresses at which the selected target does not answer with an error. -/
def Served (addr : ℕ) : Prop :=
  addr < Memory.SIZE ∨ addr / 4 = TRACE_MEMORY_ADDRESS / 4 ∨ addr ∈ timerAddresses

/-- Of the words of the timer only the register addresses themselves are served. -/
theorem mem_timerAddresses {addr : ℕ} (hs : Served addr)
    (h : addr / 4 = TIMER_MEMORY_ADDRESS_HI / 4 ∨ addr / 4 = TIMER_MEMORY_ADDRESS_LO / 4 ∨
      addr / 4 = TIMERCMP_MEMORY_ADDRESS_HI / 4 ∨ addr / 4 = TIMERCMP_MEMORY_ADDRESS_LO / 4) :
    addr ∈ timerAddresses := by
  rcases hs with hs | hs | hs
  · unfold TIMER_MEMORY_ADDRESS_LO TIMER_MEMORY_ADDRESS_HI TIMERCMP_MEMORY_ADDRESS_LO
      TIMERCMP_MEMORY_ADDRESS_HI at h
    unfold Memory.SIZE at hs
    omega
  · rw [hs] at h
    exact absurd h (by decide)
  · exact hs

/-! ## Accesses of the CPU -/

/-- An access of the CPU to the bus: the fetch, or an access of the memory interface. -/
inductive Access
  | fetch
  | read (addr : BitVec 64) (size : ℕ)
  | write (addr : BitVec 64) (data : BitVec 32) (size : ℕ)

namespace Access

def size : Access → ℕ
  | .fetch => 4
  | .read _ size => size
  | .write _ _ size => size

/-- The transaction that the access sends. -/
def payload (s : System T) : Access → Payload
  | .fetch => fetchTrans s
  | .read addr size => MemoryInterface.trans .read addr (s.host.uninit addr) size
  | .write addr data size => MemoryInterface.trans .write addr data size

/-- The code of the access. -/
def run : Access → Sim T Unit
  | .fetch => fetchBus
  | .read addr size => do
    let _ ← readDataMem addr size
  | .write addr data size => writeDataMem addr data size

/-- What the targets look at besides the address and the data. -/
theorem payload_fields {a : Access} (s : System T) (ha : a.size ∈ [1, 2, 4]) :
    (a.payload s).command ≠ .ignore ∧ (a.payload s).byteEnable = false ∧
      (a.payload s).dataLength ≤ 4 ∧ (a.payload s).streamingWidth = 4 := by
  have hsize : a.size ≤ 4 := by
    simp only [List.mem_cons, List.not_mem_nil, or_false] at ha
    omega
  cases a with
  | fetch => exact ⟨nofun, rfl, le_refl 4, rfl⟩
  | read addr size => exact ⟨nofun, rfl, hsize, rfl⟩
  | write addr data size => exact ⟨nofun, rfl, hsize, rfl⟩

end Access

/-! ## What the targets reject -/

section Targets

variable {m : Memory} {timer : Timer}

theorem Memory.bTransport_rejects (h : ¬trans.address.toNat < SIZE) :
    m.bTransport trans = .ok (m, trans.setResponseStatus .addressError) := by
  rw [Memory.bTransport, if_pos (not_lt.mp h)]

theorem Memory.bTransport_serves {r : Memory × Payload} (hb : trans.byteEnable = false)
    (hl : trans.dataLength ≤ 4) (hw : trans.streamingWidth = 4) (ha : trans.address.toNat < SIZE)
    (h : m.bTransport trans = .ok r) : r.2.isResponseError = false := by
  rw [Memory.bTransport, if_neg (not_le.mpr ha), hb, if_neg Bool.false_ne_true,
    if_neg (by omega)] at h
  cases hc : trans.command with
  | ignore =>
    rw [hc] at h
    cases h
    rfl
  | read | write =>
    rw [hc] at h
    simp only at h
    split at h
    · cases h
      rfl
    · cases h

/-- The only failure is the end of the array. -/
theorem Memory.bTransport_error {e : Fault} (h : m.bTransport trans = .error e) :
    e = .undefinedBehaviour := by
  cases hc : trans.command with
  | ignore =>
    rw [Memory.bTransport, hc] at h
    dsimp only at h
    split_ifs at h
  | read | write =>
    rw [Memory.bTransport, hc] at h
    dsimp only at h
    split_ifs at h
    cases h
    rfl

theorem Timer.bTransport_rejects (h : trans.address.toNat ∉ timerAddresses) :
    timer.bTransport host trans = (timer, trans.setResponseStatus .addressError) := by
  simp only [timerAddresses, List.mem_cons, List.not_mem_nil, or_false, not_or] at h
  obtain ⟨h₁, h₂, h₃, h₄⟩ := h
  unfold Timer.bTransport
  cases trans.command <;> simp only [if_neg h₁, if_neg h₂, if_neg h₃, if_neg h₄]

theorem Timer.bTransport_serves (h : trans.address.toNat ∈ timerAddresses) :
    (timer.bTransport host trans).2.isResponseError = false := by
  simp only [timerAddresses, List.mem_cons, List.not_mem_nil, or_false] at h
  unfold Timer.bTransport
  cases trans.command <;> rcases h with h | h | h | h <;>
    simp [h, Payload.setResponseStatus, Payload.isResponseError]

end Targets

/-! ## What the controller makes of it -/

section Controller

variable (hlt : trans.address.toNat < TO_HOST_ADDRESS)

include hlt

theorem not_toHost : ¬trans.address.toNat / 4 ≥ TO_HOST_ADDRESS / 4 := by
  unfold TO_HOST_ADDRESS at hlt ⊢
  omega

/-- Below `TO_HOST_ADDRESS` an address that is not served is rejected, and the controller reports
success without having done anything. -/
theorem response_rejects (h : ¬Served trans.address.toNat) :
    response bus host trans = .ok (trans.setResponseStatus .addressError) ∧
      BusCtrl.bTransport bus host trans = .ok (bus, trans.setResponseStatus .ok) := by
  simp only [Served, not_or] at h
  obtain ⟨hmem, htrace, htimer⟩ := h
  rw [response, Target.select, BusCtrl.bTransport, if_neg (not_toHost hlt),
    if_neg (not_toHost hlt)]
  split_ifs
  · rw [Timer.bTransport_rejects htimer]
    exact ⟨rfl, rfl⟩
  · rw [Memory.bTransport_rejects hmem]
    exact ⟨rfl, rfl⟩

/-- Below `TO_HOST_ADDRESS` the controller never reports an error. -/
theorem BusCtrl.bTransport_ok {r : Bus × Payload} (h : bTransport bus host trans = .ok r) :
    r.2.isResponseError = false := by
  rw [BusCtrl.bTransport, if_neg (not_toHost hlt)] at h
  split_ifs at h
  · cases h
    rfl
  · cases h
    rfl
  · cases hm : bus.memory.bTransport trans with
    | ok r' =>
      rw [hm] at h
      cases h
      rfl
    | error e =>
      rw [hm] at h
      cases h

theorem BusCtrl.bTransport_error {e : Fault} (h : bTransport bus host trans = .error e) :
    e = .undefinedBehaviour := by
  rw [BusCtrl.bTransport, if_neg (not_toHost hlt)] at h
  split_ifs at h
  cases hm : bus.memory.bTransport trans with
  | ok r =>
    rw [hm] at h
    cases h
  | error f =>
    rw [hm] at h
    cases h
    exact Memory.bTransport_error hm

theorem response_serves {p : Payload} (hb : trans.byteEnable = false)
    (hl : trans.dataLength ≤ 4) (hw : trans.streamingWidth = 4) (hs : Served trans.address.toNat)
    (h : response bus host trans = .ok p) : p.isResponseError = false := by
  rw [response, Target.select, if_neg (not_toHost hlt)] at h
  split_ifs at h with htimer htrace
  · cases h
    exact Timer.bTransport_serves (mem_timerAddresses hs htimer)
  · cases h
    rfl
  · have ha : trans.address.toNat < Memory.SIZE := by
      rcases hs with hs | hs | hs
      · exact hs
      · exact absurd hs htrace
      · simp only [timerAddresses, List.mem_cons, List.not_mem_nil, or_false] at hs
        omega
    cases hm : bus.memory.bTransport trans with
    | ok r =>
      rw [hm] at h
      cases h
      exact Memory.bTransport_serves hb hl hw ha hm
    | error e =>
      rw [hm] at h
      cases h

end Controller

/-- Exactly the addresses that are not served are rejected. -/
theorem rejected_iff {a : Access} (ha : a.size ∈ [1, 2, 4])
    (hlt : (a.payload s).address.toNat < TO_HOST_ADDRESS) :
    Rejected s.bus s.host (a.payload s) ↔ ¬Served (a.payload s).address.toNat := by
  obtain ⟨-, hb, hl, hw⟩ := Access.payload_fields s ha
  constructor
  · rintro ⟨p, hp, he, -⟩ hs
    rw [response_serves hlt hb hl hw hs hp] at he
    cases he
  · intro h
    exact ⟨_, (response_rejects hlt h).1, rfl, rfl⟩

/-! ## What the CPU sees -/

/-- The bus answers a rejected transaction with a good status and nothing else. -/
theorem run_bTransport_rejected (s : System T) {trans : Payload}
    (hlt : trans.address.toNat < TO_HOST_ADDRESS) (h : ¬Served trans.address.toNat) :
    (bTransport trans).run s = .ok (trans.setResponseStatus .ok) s :=
  run_bTransport (response_rejects hlt h).2

/-- A read outside the memory and the peripherals returns the uninitialised variable. -/
theorem run_readDataMem_rejected {addr : BitVec 64} {size : ℕ}
    (hlt : addr.toNat < TO_HOST_ADDRESS) (h : ¬Served addr.toNat) :
    (readDataMem addr size).run s = .ok (s.host.uninit addr) s := by
  rw [readDataMem, run_get_bind, run_bind_ok (run_bTransport_rejected s hlt h)]
  rfl

/-- A write outside the memory and the peripherals is dropped. -/
theorem run_writeDataMem_rejected {addr : BitVec 64} {data : BitVec 32} {size : ℕ}
    (hlt : addr.toNat < TO_HOST_ADDRESS) (h : ¬Served addr.toNat) :
    (writeDataMem addr data size).run s = .ok () s := by
  rw [writeDataMem, run_bind_ok (run_bTransport_rejected s hlt h)]
  rfl

/-- A fetch outside the memory and the peripherals returns the word fetched before. -/
theorem run_fetchBus_rejected (hlt : (fetchTrans s).address.toNat < TO_HOST_ADDRESS)
    (h : ¬Served (fetchTrans s).address.toNat) :
    ∃ t, fetchBus.run s = .ok () t ∧ t.INSTR = s.INSTR := by
  rw [fetchBus, run_get_bind, run_bind_ok (run_bTransport_rejected s hlt h)]
  cases hd : s.transDmiAllowed with
  | false =>
    have hd' : ((fetchTrans s).setResponseStatus .ok).dmiAllowed = false := hd
    simp only [hd']
    exact ⟨_, rfl, rfl⟩
  | true =>
    have hd' : ((fetchTrans s).setResponseStatus .ok).dmiAllowed = true := hd
    simp only [hd']
    exact ⟨_, rfl, rfl⟩

theorem run_access_rejected {a : Access} (hlt : (a.payload s).address.toNat < TO_HOST_ADDRESS)
    (h : ¬Served (a.payload s).address.toNat) : ∃ t, a.run.run s = .ok () t := by
  cases a with
  | fetch =>
    obtain ⟨t, ht, -⟩ := run_fetchBus_rejected hlt h
    exact ⟨t, ht⟩
  | read addr size => exact ⟨s, run_bind_ok (run_readDataMem_rejected hlt h)⟩
  | write addr data size => exact ⟨s, run_writeDataMem_rejected hlt h⟩

/-- An error of the target is an error in the status that the CPU finds. -/
def ErrorReported (s : System T) (a : Access) : Prop :=
  Rejected s.bus s.host (a.payload s) → ∀ r,
    BusCtrl.bTransport s.bus s.host (a.payload s) = .ok r → r.2.isResponseError = true

/-- The access does not return as if it had been done. -/
def ErrorStops (s : System T) (a : Access) : Prop :=
  Rejected s.bus s.host (a.payload s) → ∀ t, a.run.run s ≠ .ok () t

/-- The CPU learns of the errors of an access exactly where no target makes any. -/
theorem errorReported_iff {a : Access} (ha : a.size ∈ [1, 2, 4])
    (hlt : (a.payload s).address.toNat < TO_HOST_ADDRESS) :
    (ErrorReported s a ↔ Served (a.payload s).address.toNat) ∧
      (ErrorStops s a ↔ Served (a.payload s).address.toNat) := by
  have hr := rejected_iff ha hlt
  refine ⟨⟨fun h => ?_, fun hs he => absurd hs (hr.mp he)⟩,
    ⟨fun h => ?_, fun hs he => absurd hs (hr.mp he)⟩⟩
  · by_contra hs
    cases h (hr.mpr hs) _ (response_rejects hlt hs).2
  · by_contra hs
    obtain ⟨t, ht⟩ := run_access_rejected hlt hs
    exact h (hr.mpr hs) t ht

/-- A load from the middle of the memory. -/
theorem errorReported_load : ErrorReported (start .RV32 []) (.read 0x800 4) :=
  (errorReported_iff (by decide) (by decide)).1.mpr (.inl (by decide))

/-- A load from the end of the memory returns what the variable held before. -/
theorem not_errorReported_load :
    Rejected (start .RV32 []).bus (start .RV32 []).host
        (Access.payload (start .RV32 []) (.read 0x1000000 4)) ∧
      ¬ErrorReported (start .RV32 []) (.read 0x1000000 4) ∧
      ¬ErrorStops (start .RV32 []) (.read 0x1000000 4) := by
  have hr : Rejected (start .RV32 []).bus (start .RV32 []).host
      (Access.payload (start .RV32 []) (.read 0x1000000 4)) := ⟨_, rfl, rfl, rfl⟩
  exact ⟨hr, fun h => (by cases h hr _ rfl), fun h => h hr _ rfl⟩

end RiscvTlm
