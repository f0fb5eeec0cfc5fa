import RiscvTlm.Lib.Transitions
import RiscvTlm.CpuThread
import RiscvTlm.DataAccess
import RiscvTlm.StepRelations

/-!
# The two fetch paths

Once the CPU has the direct pointer, a fetch copies four bytes from it and the bus sees no more
fetches. Inside the memory the copy leaves the very state that the transaction would have left. Past
the end the transaction always returns, while the copy reads outside the array.
-/

namespace RiscvTlm

open Bytes Prog Transitions

variable {T : CpuType} {s t : System T}

/-- A CPU that holds the direct pointer got it from a fetch that the memory allowed. -/
def DmiGranted (s : System T) : Prop :=
  s.dmiPtrValid = true →
    s.bus.memory.dmiAllowed = true ∧ s.transDmiAllowed = true ∧ s.transResponseStatus = .ok

/-! ## What the two paths do -/

theorem run_fetchDmi (s : System T) : fetchDmi.run s =
    if s.regs.registerPC.toNat + 4 ≤ Memory.SIZE then
      .ok () { s with
        INSTR := copyBytes s.INSTR (fun i => s.bus.memory.mem (s.regs.registerPC.toNat + i)) 4 }
    else .error .undefinedBehaviour s := by
  rw [fetchDmi, run_get_bind]
  dsimp only [Registers.getPC_eq]
  split <;> rfl

/-- The state after the transaction of a fetch. -/
def fetchedOver (s : System T) (r : Bus × Payload) : System T :=
  { s with
    bus := r.1
    INSTR := r.2.data
    transDmiAllowed := r.2.dmiAllowed
    transResponseStatus := r.2.responseStatus }

theorem run_fetchBus_of_ok {r : Bus × Payload}
    (h : BusCtrl.bTransport s.bus s.host (fetchTrans s) = .ok r) : fetchBus.run s =
      if r.2.isResponseError then .error (.scReportError "CPU base" "Read memory") (fetchedOver s r)
      else .ok () (if r.2.dmiAllowed then
        { fetchedOver s r with dmiPtrValid := r.1.memory.dmiAllowed } else fetchedOver s r) := by
  rw [fetchBus, run_get_bind, run_bind_ok (run_bTransport h)]
  obtain ⟨bus, command, address, data, dataLength, streamingWidth, byteEnable, dmi, status⟩ := r
  cases dmi <;> cases status <;> rfl

theorem run_fetchBus_of_error {e : Fault}
    (h : BusCtrl.bTransport s.bus s.host (fetchTrans s) = .error e) :
    fetchBus.run s = .error e s := by
  have hb : (bTransport (fetchTrans s)).run s = .error e s := by
    rw [bTransport, run_get_bind, h]
    rfl
  rw [fetchBus, run_get_bind]
  exact run_bind_error hb

/-- A fetch that returns has copied the word, or the bus has answered it with no error. -/
theorem fetch_cases {w : BitVec 32} (h : fetch.run s = .ok w t) :
    (s.dmiPtrValid = true ∧ s.regs.registerPC.toNat + 4 ≤ Memory.SIZE ∧ t = { s with
      INSTR := copyBytes s.INSTR (fun i => s.bus.memory.mem (s.regs.registerPC.toNat + i)) 4 }) ∨
    (s.dmiPtrValid = false ∧ ∃ r, BusCtrl.bTransport s.bus s.host (fetchTrans s) = .ok r ∧
      r.2.responseStatus = .ok ∧ t = if r.2.dmiAllowed then
        { fetchedOver s r with dmiPtrValid := r.1.memory.dmiAllowed } else fetchedOver s r) := by
  rw [fetch, run_get_bind] at h
  by_cases hv : s.dmiPtrValid = true
  · rw [if_pos hv] at h
    obtain ⟨_, u, hu, ht⟩ := bind_eq_ok h
    cases ht
    rw [run_fetchDmi] at hu
    split at hu
    next hin =>
      cases hu
      exact .inl ⟨hv, hin, rfl⟩
    next => cases hu
  · rw [if_neg hv] at h
    obtain ⟨_, u, hu, ht⟩ := bind_eq_ok h
    cases ht
    cases hb : BusCtrl.bTransport s.bus s.host (fetchTrans s) with
    | error e =>
      rw [run_fetchBus_of_error hb] at hu
      cases hu
    | ok r =>
      rw [run_fetchBus_of_ok hb] at hu
      split at hu
      next => cases hu
      next he =>
        cases hu
        have hst : r.2.responseStatus = .ok := by
          by_contra hne
          exact he (decide_eq_true hne)
        exact .inr ⟨Bool.eq_false_iff.mpr hv, r, rfl, hst, rfl⟩

/-! ## Inside the memory -/

theorem fetchTrans_toNat (s : System T) :
    (fetchTrans s).address.toNat = s.regs.registerPC.toNat :=
  BitVec.toNat_setWidth_of_le T.xlen_le

/-- The transaction of a fetch inside the memory. -/
theorem bTransport_fetchTrans (ha : s.regs.registerPC.toNat < Memory.SIZE) :
    s.bus.memory.bTransport (fetchTrans s) =
      if s.regs.registerPC.toNat + 4 ≤ Memory.SIZE then
        .ok (s.bus.memory, { fetchTrans s with
          data := copyBytes s.INSTR (fun i => s.bus.memory.mem (s.regs.registerPC.toNat + i)) 4
          dmiAllowed := s.bus.memory.dmiAllowed
          responseStatus := .ok })
      else .error .undefinedBehaviour := by
  rw [← fetchTrans_toNat s] at ha ⊢
  exact Memory.bTransport_read_eq ha rfl le_rfl rfl rfl

/-- Inside the memory both paths have the same outcome and leave the same state. -/
theorem run_fetchDmi_eq (hs : DmiGranted s) (hv : s.dmiPtrValid = true)
    (ha : s.regs.registerPC.toNat < Memory.SIZE) : fetchDmi.run s = fetchBus.run s := by
  obtain ⟨hm, hd, hst⟩ := hs hv
  have hsel : BusCtrl.bTransport s.bus s.host (fetchTrans s) = _ :=
    BusCtrl.bTransport_select ((fetchTrans_toNat s).trans_lt ha)
  rw [bTransport_fetchTrans ha] at hsel
  rw [run_fetchDmi]
  by_cases hin : s.regs.registerPC.toNat + 4 ≤ Memory.SIZE
  · rw [if_pos hin] at hsel ⊢
    rw [run_fetchBus_of_ok hsel]
    show _ = EStateM.Result.ok () (if s.bus.memory.dmiAllowed then _ else _)
    rw [if_pos hm]
    show _ = EStateM.Result.ok () { s with
      INSTR := copyBytes s.INSTR (fun i => s.bus.memory.mem (s.regs.registerPC.toNat + i)) 4
      transDmiAllowed := s.bus.memory.dmiAllowed
      transResponseStatus := TlmResponse.ok
      dmiPtrValid := s.bus.memory.dmiAllowed }
    rw [hm, hd, hst, hv]
  · rw [if_neg hin] at hsel ⊢
    rw [run_fetchBus_of_error hsel]

/-! ## Past the end of the memory -/

/-- A read past the end of the memory returns over the bus, with the status `ok` or its own. -/
theorem BusCtrl.bTransport_past (bus : Bus) (host : Host) {trans : Payload}
    (ha : Memory.SIZE ≤ trans.address.toNat) :
    ∃ r, bTransport bus host trans = .ok r ∧
      (r.2.responseStatus = .ok ∨ r.2.responseStatus = trans.responseStatus) := by
  unfold bTransport
  dsimp only
  split
  · exact ⟨_, rfl, .inr rfl⟩
  split
  · exact ⟨_, rfl, .inl rfl⟩
  split
  · exact ⟨_, rfl, .inl rfl⟩
  · rw [Memory.bTransport, if_pos ha]
    exact ⟨_, rfl, .inl rfl⟩

theorem run_fetchBus_past (hst : s.transResponseStatus = .ok)
    (ha : Memory.SIZE ≤ s.regs.registerPC.toNat) : ∃ t, fetchBus.run s = .ok () t := by
  obtain ⟨r, hr, hstatus⟩ := BusCtrl.bTransport_past s.bus s.host
    (ha.trans_eq (fetchTrans_toNat s).symm)
  have hok : r.2.responseStatus = .ok := hstatus.elim id fun h => h.trans hst
  have he : r.2.isResponseError = false := by
    unfold Payload.isResponseError
    rw [hok]
    rfl
  rw [run_fetchBus_of_ok hr, he]
  exact ⟨_, rfl⟩

theorem run_fetchDmi_past (ha : Memory.SIZE ≤ s.regs.registerPC.toNat) :
    fetchDmi.run s = .error .undefinedBehaviour s := by
  rw [run_fetchDmi, if_neg (by omega)]

/-! ## The grant over a run -/

/-- An instruction does not touch what the grant is about. -/
def grantedRelation (T : CpuType) : StateRelation T where
  rel s t := s = t ∧ DmiGranted s
  anyPC := True
  regs h := congrArg System.regs h.1
  bus h := congrArg System.bus h.1
  tlb h := congrArg System.tlbAEntries h.1
  host h := congrArg System.host h.1
  pc _ := .inl trivial
  setRegs h regs _ := ⟨by rw [h.1], h.2⟩
  setBus h bus hb := ⟨by rw [h.1], fun hv => ⟨hb.trans (h.2 hv).1, (h.2 hv).2⟩⟩
  setTlb h tlb := ⟨by rw [h.1], h.2⟩
  log h cause := ⟨by rw [h.1], h.2⟩

theorem dmiGranted_fetch {w : BitVec 32} (hs : DmiGranted s) (h : fetch.run s = .ok w t) :
    DmiGranted t := by
  obtain ⟨-, -, rfl⟩ | ⟨hv, r, -, hst, rfl⟩ := fetch_cases h
  · exact hs
  · split
    next hd => exact fun hm => ⟨hm, hd, hst⟩
    next => exact fun hv' => nomatch hv.symm.trans hv'

theorem dmiGranted_next {l l' : CpuThread T} {e : Event T} (hl : DmiGranted l.cpu)
    (h : l.next e = some l') : DmiGranted l'.cpu := by
  cases step_of_next h with
  | @cpuStep s t b hs =>
    obtain ⟨w, s₁, hf, hx⟩ := bind_eq_ok hs
    exact (respects_execDecoded (grantedRelation T) (.inl trivial)).invariant
      (dmiGranted_fetch hl hf) hx
  | taken => exact hl
  | delayed => exact hl
  | @down s hi =>
    have hk : DmiGranted s := hl
    unfold irqDown
    split
    · exact hk
    · exact hk
  | callInterrupt => exact hl
  | wait => exact hl

/-! ## Agreement -/

/-- The direct fetch and the transaction obtain the same word, with the same error and the same
stop. -/
def FetchAgrees (s : System T) : Prop :=
  match fetchDmi.run s, fetchBus.run s with
  | .ok _ t, .ok _ u => t.INSTR = u.INSTR ∧ t.bus.stopped = u.bus.stopped
  | .error e t, .error e' u => e = e' ∧ t.bus.stopped = u.bus.stopped
  | _, _ => False

/-- In every state of every run in which the direct pointer is valid, the paths agree exactly for
the PCs inside the memory. -/
theorem fetchAgrees_iff {memory : Memory} {PC : BitVec T.xlen} {host : Host}
    {tr : List (Event T)} {l : CpuThread T}
    (hr : Run CpuThread.next (fun _ _ => True) ⟨.step, reset memory PC host⟩ tr l)
    (hv : l.cpu.dmiPtrValid = true) :
    FetchAgrees l.cpu ↔ l.cpu.regs.registerPC.toNat < Memory.SIZE := by
  have hs : DmiGranted l.cpu := hr.invariant (I := fun l => DmiGranted l.cpu)
    (fun _ _ _ hl _ hn => dmiGranted_next hl hn) nofun
  constructor
  · intro h
    by_contra ha
    obtain ⟨t, ht⟩ := run_fetchBus_past (hs hv).2.2 (not_lt.mp ha)
    unfold FetchAgrees at h
    rw [run_fetchDmi_past (not_lt.mp ha), ht] at h
    exact h
  · intro ha
    unfold FetchAgrees
    rw [run_fetchDmi_eq hs hv ha]
    cases fetchBus.run l.cpu with
    | ok _ t => exact ⟨rfl, rfl⟩
    | error e t => exact ⟨rfl, rfl⟩

/-- A CPU that starts a program in a memory with direct access. -/
def startDmi (T : CpuType) (program : List (BitVec 32)) : CpuThread T :=
  ⟨.step, reset { Memory.load program with dmiAllowed := true } 0 ⟨0, id, fun _ => 0⟩⟩

/-- The second word of a program, `addi x1, x0, 1` after `lui x1, 0x1000`. -/
theorem fetchAgrees_second :
    ∃ l, Run CpuThread.next (fun _ _ => True) (startDmi .RV32 [0x010000B7, 0x00100093])
      [.cpuStep, .cpuProcessIRQ false] l ∧ l.cpu.dmiPtrValid = true ∧ FetchAgrees l.cpu := by
  have hr : Run CpuThread.next (fun _ _ => True) (startDmi .RV32 [0x010000B7, 0x00100093])
      [.cpuStep, .cpuProcessIRQ false] _ := .cons trivial rfl (.cons trivial rfl (.nil _))
  exact ⟨_, hr, rfl, (fetchAgrees_iff hr rfl).mpr (by decide)⟩

/-- `lui x1, 0x1000` and `jalr x0, 0(x1)`, a jump to the first address past the end. -/
theorem not_fetchAgrees_past :
    ∃ l, Run CpuThread.next (fun _ _ => True) (startDmi .RV32 [0x010000B7, 0x00008067])
      [.cpuStep, .cpuProcessIRQ false, .cpuStep] l ∧ l.cpu.dmiPtrValid = true ∧
        ¬FetchAgrees l.cpu := by
  refine ⟨_, .cons trivial rfl (.cons trivial rfl (.cons trivial rfl (.nil _))), rfl, ?_⟩
  exact fun h => h

end RiscvTlm
