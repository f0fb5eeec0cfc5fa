import RiscvTlm.Lib.ByteMemory
import RiscvTlm.Steps

/-!
# Data accesses inside the memory

An access of at most four bytes that lies inside the memory array reads or writes those bytes and
changes nothing else.
-/

namespace RiscvTlm

open Bytes ByteMemory Prog

variable {T : CpuType} {s t : System T} {addr : BitVec 64} {size : ℕ}

/-! ## The memory array of a system -/

/-- The bytes of the memory array. -/
def System.mem (s : System T) : Mem := s.bus.memory.mem

/-- The state with another memory array. -/
def System.setMem (s : System T) (mem : Mem) : System T :=
  { s with bus := { s.bus with memory := { s.bus.memory with mem := mem } } }

/-- The state with another value in a register. -/
def System.setReg (s : System T) (n : ℕ) (v : BitVec T.xlen) : System T :=
  { s with regs := s.regs.setValue n v }

section SetMem

variable (s) (mem mem' : Mem)

@[simp] theorem mem_setMem : (s.setMem mem).mem = mem := rfl

@[simp] theorem setMem_setMem : (s.setMem mem).setMem mem' = s.setMem mem' := rfl

/-- A register write as a state. -/
theorem run_setReg (n : ℕ) (v : BitVec T.xlen) : (setValue n v).run s = .ok () (s.setReg n v) := rfl

@[simp] theorem setReg_zero (v : BitVec T.xlen) : s.setReg 0 v = s := by
  rw [System.setReg, Registers.setValue_zero]

theorem getValue_setReg {n : ℕ} (v : BitVec T.xlen) (hn : n < 32) (h0 : n ≠ 0) :
    (s.setReg n v).regs.getValue n = v := by
  rw [System.setReg, Registers.getValue_setValue _ _ _ _ hn, if_pos ⟨rfl, h0⟩]

end SetMem

/-! ## Accesses -/

theorem copyBytes_eq_read (dest : BitVec 32) (mem : Mem) (a : ℕ) :
    copyBytes dest (fun i => mem (a + i)) 4 = read 32 mem a 4 :=
  ofBytes_congr fun _ hi => if_pos hi

/-- The low bytes of a copy are the bytes copied. -/
theorem setWidth_copyBytes (dest : BitVec 32) (mem : Mem) (a : ℕ) {w : ℕ} (hw : w = 8 * size)
    (hs : size ≤ 4) :
    (copyBytes dest (fun i => mem (a + i)) size).setWidth w = read w mem a size := by
  rw [copyBytes, setWidth_ofBytes _ hw (by omega) hs]
  exact ofBytes_congr fun _ hi => if_pos hi

section Transport

variable {m : Memory} {trans : Payload} (ha : trans.address.toNat < Memory.SIZE)
  (hb : trans.byteEnable = false) (hl : trans.dataLength ≤ 4) (hw : trans.streamingWidth = 4)

include ha hb hl hw

/-- A read from an address of the array. -/
theorem Memory.bTransport_read_eq (hc : trans.command = .read) :
    m.bTransport trans =
      if trans.address.toNat + trans.dataLength ≤ SIZE then
        .ok (m, { trans with
          data := copyBytes trans.data (fun i => m.mem (trans.address.toNat + i)) trans.dataLength
          dmiAllowed := m.dmiAllowed
          responseStatus := .ok })
      else .error .undefinedBehaviour := by
  rw [Memory.bTransport, if_neg (not_le.mpr ha), hb, if_neg Bool.false_ne_true,
    if_neg (by omega), hc]

/-- A write to an address of the array. -/
theorem Memory.bTransport_write_eq (hc : trans.command = .write) :
    m.bTransport trans =
      if trans.address.toNat + trans.dataLength ≤ SIZE then
        .ok ({ m with mem :=
            (Write.ofNum trans.address.toNat trans.dataLength trans.data).apply m.mem },
          { trans with
            dmiAllowed := m.dmiAllowed
            responseStatus := .ok })
      else .error .undefinedBehaviour := by
  rw [Memory.bTransport, if_neg (not_le.mpr ha), hb, if_neg Bool.false_ne_true,
    if_neg (by omega), hc]
  rfl

end Transport

/-- Below `Memory.SIZE` the bus selects the memory. -/
theorem BusCtrl.bTransport_select {bus : Bus} {host : Host} {trans : Payload}
    (ha : trans.address.toNat < Memory.SIZE) :
    bTransport bus host trans =
      match bus.memory.bTransport trans with
      | .ok r => .ok ({ bus with memory := r.1 }, r.2.setResponseStatus .ok)
      | .error e => .error e := by
  unfold Memory.SIZE at ha
  have hhost : ¬trans.address.toNat / 4 ≥ TO_HOST_ADDRESS / 4 := by
    unfold TO_HOST_ADDRESS
    omega
  have htimer : ¬(trans.address.toNat / 4 = TIMER_MEMORY_ADDRESS_HI / 4 ∨
      trans.address.toNat / 4 = TIMER_MEMORY_ADDRESS_LO / 4 ∨
      trans.address.toNat / 4 = TIMERCMP_MEMORY_ADDRESS_HI / 4 ∨
      trans.address.toNat / 4 = TIMERCMP_MEMORY_ADDRESS_LO / 4) := by
    unfold TIMER_MEMORY_ADDRESS_LO TIMER_MEMORY_ADDRESS_HI TIMERCMP_MEMORY_ADDRESS_LO
      TIMERCMP_MEMORY_ADDRESS_HI
    omega
  have htrace : ¬trans.address.toNat / 4 = TRACE_MEMORY_ADDRESS / 4 := by
    unfold TRACE_MEMORY_ADDRESS
    omega
  exact (if_neg hhost).trans ((if_neg htimer).trans (if_neg htrace))

theorem BusCtrl.bTransport_memory {bus : Bus} {host : Host} {trans : Payload}
    {r : Memory × Payload} (ha : trans.address.toNat < Memory.SIZE)
    (h : bus.memory.bTransport trans = .ok r) :
    bTransport bus host trans =
      .ok ({ bus with memory := r.1 }, r.2.setResponseStatus .ok) := by
  rw [bTransport_select ha, h]

section InMemory

variable (hpos : 0 < size) (hsize : size ≤ 4) (h : addr.toNat + size ≤ Memory.SIZE)

include hpos hsize h

theorem run_readDataMem :
    (readDataMem addr size).run s =
      .ok (copyBytes (s.host.uninit addr) (fun i => s.mem (addr.toNat + i)) size) s := by
  have ha : addr.toNat < Memory.SIZE := by omega
  have hm : s.bus.memory.bTransport
      (MemoryInterface.trans .read addr (s.host.uninit addr) size) = .ok (s.bus.memory,
        { MemoryInterface.trans .read addr (s.host.uninit addr) size with
          data := copyBytes (s.host.uninit addr) (fun i => s.mem (addr.toNat + i)) size
          dmiAllowed := s.bus.memory.dmiAllowed
          responseStatus := .ok }) :=
    (Memory.bTransport_read_eq ha rfl hsize rfl rfl).trans (if_pos h)
  rw [readDataMem, run_get_bind, run_bind_ok (run_bTransport (BusCtrl.bTransport_memory ha hm))]
  rfl

theorem run_writeDataMem (data : BitVec 32) :
    (writeDataMem addr data size).run s =
      .ok () (s.setMem ((Write.ofNum addr.toNat size data).apply s.mem)) := by
  have ha : addr.toNat < Memory.SIZE := by omega
  have hm : s.bus.memory.bTransport (MemoryInterface.trans .write addr data size) =
      .ok ({ s.bus.memory with mem := (Write.ofNum addr.toNat size data).apply s.mem },
        { MemoryInterface.trans .write addr data size with
          dmiAllowed := s.bus.memory.dmiAllowed
          responseStatus := .ok }) :=
    (Memory.bTransport_write_eq ha rfl hsize rfl rfl).trans (if_pos h)
  rw [writeDataMem, run_bind_ok (run_bTransport (BusCtrl.bTransport_memory ha hm))]
  rfl

end InMemory

/-! ## Writes at any address -/

/-- A write to the memory array, wherever it lies, if it has a defined result. -/
theorem Memory.bTransport_write {m : Memory} {trans : Payload} {r : Memory × Payload}
    (hc : trans.command = .write) (hb : trans.byteEnable = false) (hl : trans.dataLength ≤ 4)
    (hw : trans.streamingWidth = 4) (h : m.bTransport trans = .ok r) :
    r.1.mem = if trans.address.toNat < SIZE then
      (Write.ofNum trans.address.toNat trans.dataLength trans.data).apply m.mem else m.mem := by
  by_cases ha : trans.address.toNat < SIZE
  · rw [if_pos ha]
    rw [bTransport_write_eq ha hb hl hw hc] at h
    split at h
    · cases h
      rfl
    · cases h
  · rw [if_neg ha]
    rw [Memory.bTransport, if_pos (not_lt.mp ha)] at h
    cases h
    rfl

theorem BusCtrl.bTransport_write {bus : Bus} {host : Host} {trans : Payload} {r : Bus × Payload}
    (hc : trans.command = .write) (hb : trans.byteEnable = false) (hl : trans.dataLength ≤ 4)
    (hw : trans.streamingWidth = 4) (h : bTransport bus host trans = .ok r) :
    r.1.memory.mem = if trans.address.toNat < Memory.SIZE then
      (Write.ofNum trans.address.toNat trans.dataLength trans.data).apply bus.memory.mem
      else bus.memory.mem := by
  by_cases ha : trans.address.toNat < Memory.SIZE
  · cases hm : bus.memory.bTransport trans with
    | ok r' =>
      rw [bTransport_memory ha hm] at h
      cases h
      exact Memory.bTransport_write hc hb hl hw hm
    | error e =>
      rw [bTransport_select ha, hm] at h
      cases h
  · rw [if_neg ha]
    unfold bTransport at h
    simp only at h
    split_ifs at h
    · cases h
      rfl
    · cases h
      rfl
    · cases h
      rfl
    · rw [Memory.bTransport, if_pos (not_lt.mp ha)] at h
      cases h
      rfl

/-- A store changes the memory array only where it writes, and not at all outside it. -/
theorem mem_of_writeDataMem {data : BitVec 32} (hsize : size ≤ 4)
    (h : (writeDataMem addr data size).run s = .ok () t) :
    t.mem = if addr.toNat < Memory.SIZE then
      (Write.ofNum addr.toNat size data).apply s.mem else s.mem := by
  obtain ⟨p, u, ht, hu⟩ := bind_eq_ok h
  have hut : t.mem = u.mem := by
    split at hu
    · cases hu
    · cases hu
      rfl
  rw [hut]
  rw [bTransport, run_get_bind] at ht
  cases hr : BusCtrl.bTransport s.bus s.host (MemoryInterface.trans .write addr data size) with
  | error e =>
    rw [hr] at ht
    cases ht
  | ok r =>
    rw [hr] at ht
    cases ht
    exact BusCtrl.bTransport_write rfl rfl hsize rfl hr

end RiscvTlm
