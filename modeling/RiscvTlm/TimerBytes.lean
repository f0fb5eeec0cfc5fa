import RiscvTlm.BusErrors
import RiscvTlm.TimerRuns

/-!
# The timer registers as bytes

Loads and stores of some bytes of `mtime` and `mtimecmp` through the bus controller. The timer
answers an access to the first byte of a register half and writes the half whole, the bytes that a
store does not bring with zeros; the error of any other access is lost in the controller.
-/

namespace RiscvTlm

open Bytes

namespace Timer

/-- Byte `i` of the registers, from `TIMER_MEMORY_ADDRESS_LO` on. -/
def regByte (timer : Timer) (i : ℕ) : BitVec 8 :=
  if i < 8 then byte timer.mtime i else byte timer.mtimecmp (i - 8)

/-- The halves of the registers. -/
inductive Half
  | mtimeLow
  | mtimeHigh
  | mtimecmpLow
  | mtimecmpHigh
  deriving DecidableEq

def Half.index : Half → ℕ
  | .mtimeLow => 0
  | .mtimeHigh => 1
  | .mtimecmpLow => 2
  | .mtimecmpHigh => 3

def half (timer : Timer) : Half → BitVec 32
  | .mtimeLow => timer.mtime.setWidth 32
  | .mtimeHigh => (timer.mtime >>> 32).setWidth 32
  | .mtimecmpLow => timer.mtimecmp.setWidth 32
  | .mtimecmpHigh => (timer.mtimecmp >>> 32).setWidth 32

/-- A load from the first byte refreshes `mtime`. -/
def refreshed (timer : Timer) (host : Host) (offset : ℕ) : Timer :=
  if offset = 0 then { timer with mtime := host.timeStamp } else timer

end Timer

/-- Some bytes inside the registers. -/
structure RegAccess where
  offset : ℕ
  size : ℕ
  size_mem : size = 1 ∨ size = 2 ∨ size = 4
  inside : offset + size ≤ 16

namespace RegAccess

variable (a : RegAccess) (bus : Bus) (host : Host) (data : BitVec 32)

def address : BitVec 64 := BitVec.ofNat 64 (TIMER_MEMORY_ADDRESS_LO + a.offset)

/-- The transaction of the memory interface; a load finds anything in its data. -/
def trans (command : TlmCommand) : Payload :=
  MemoryInterface.trans command a.address data a.size

/-- The load returns the addressed bytes. -/
def Loaded : Prop :=
  ∃ r, BusCtrl.bTransport bus host (a.trans data .read) = .ok r ∧ r.2.isResponseError = false ∧
    r.1.timer = bus.timer.refreshed host a.offset ∧
    ∀ i < a.size, byte r.2.data i = (bus.timer.refreshed host a.offset).regByte (a.offset + i)

/-- The store changes the addressed bytes and no others. -/
def Stored : Prop :=
  ∃ r, BusCtrl.bTransport bus host (a.trans data .write) = .ok r ∧ r.2.isResponseError = false ∧
    ∀ i < 16, r.1.timer.regByte i =
      if a.offset ≤ i ∧ i < a.offset + a.size then byte data (i - a.offset)
      else bus.timer.regByte i

/-- The access is reported as an error and leaves the registers as they were. -/
def Refused (command : TlmCommand) : Prop :=
  ∃ r, BusCtrl.bTransport bus host (a.trans data command) = .ok r ∧
    r.2.isResponseError = true ∧ r.1.timer = bus.timer

/-- Whatever is in its variable before, the load is served or refused. -/
def LoadBehaves : Prop := ∀ data, a.Loaded bus host data ∨ a.Refused bus host data .read

def StoreBehaves : Prop := a.Stored bus host data ∨ a.Refused bus host data .write

end RegAccess

/-! ## Bytes of the halves -/

theorem byte_copyBytes (dest : BitVec 32) (src : ℕ → BitVec 8) (len : ℕ) {i : ℕ} (hi : i < 4) :
    byte (copyBytes dest src len) i = if i < len then src i else byte dest i :=
  byte_ofBytes _ hi (by decide)

namespace Timer

variable {timer : Timer} {host : Host} {trans : Payload} {h : Half}

theorem exists_half {n : ℕ} (hn : n < 4) : ∃ h : Half, n = h.index := by
  match n, hn with
  | 0, _ => exact ⟨.mtimeLow, rfl⟩
  | 1, _ => exact ⟨.mtimeHigh, rfl⟩
  | 2, _ => exact ⟨.mtimecmpLow, rfl⟩
  | 3, _ => exact ⟨.mtimecmpHigh, rfl⟩

theorem Half.index_inj {h k : Half} (he : h.index = k.index) : h = k := by
  cases h <;> cases k <;> first | rfl | cases he

theorem regByte_half (timer : Timer) (h : Half) {i : ℕ} (hi : i < 4) :
    timer.regByte (4 * h.index + i) = byte (timer.half h) i := by
  have hlow (x : BitVec 64) : byte (x.setWidth 32) i = byte x i := byte_setWidth x (by omega)
  have hhigh (x : BitVec 64) : byte ((x >>> 32).setWidth 32) i = byte x (4 + i) := by
    rw [byte_setWidth _ (by omega)]
    exact byte_ushiftRight x i 4
  cases h with
  | mtimeLow =>
    have he : 4 * Half.mtimeLow.index + i = i := Nat.zero_add i
    rw [he, regByte, if_pos (by omega), half, hlow]
  | mtimeHigh =>
    have he : 4 * Half.mtimeHigh.index + i = 4 + i := rfl
    rw [he, regByte, if_pos (by omega), half, hhigh]
  | mtimecmpLow =>
    have he : 4 * Half.mtimecmpLow.index + i = 8 + i := rfl
    rw [he, regByte, if_neg (by omega), half, hlow, Nat.add_sub_cancel_left]
  | mtimecmpHigh =>
    have he : 4 * Half.mtimecmpHigh.index + i = 12 + i := rfl
    have hs : 12 + i - 8 = 4 + i := by omega
    rw [he, regByte, if_neg (by omega), half, hhigh, hs]

/-- A write to a half replaces it. -/
theorem half_write (hc : trans.command = .write)
    (ha : trans.address.toNat = TIMER_MEMORY_ADDRESS_LO + 4 * h.index) (k : Half) :
    (timer.bTransport host trans).1.half k = if k = h then trans.auxValue else timer.half k := by
  unfold Timer.bTransport
  rw [hc, ha]
  cases h <;> cases k <;>
    simp [Half.index, half, TIMER_MEMORY_ADDRESS_LO, setLow_eq, setHigh_eq, Payload.auxValue]

/-- A read of a half returns it. -/
theorem bTransport_half (timer : Timer) (host : Host) (trans : Payload)
    (hc : trans.command = .read)
    (ha : trans.address.toNat = TIMER_MEMORY_ADDRESS_LO + 4 * h.index) :
    (timer.bTransport host trans).1 = timer.refreshed host (4 * h.index) ∧
    (timer.bTransport host trans).2.data = copyBytes trans.data
      (byte ((timer.refreshed host (4 * h.index)).half h)) trans.dataLength := by
  unfold Timer.bTransport
  rw [hc, ha]
  cases h <;> simp [Half.index, half, TIMER_MEMORY_ADDRESS_LO, refreshed]

end Timer

/-! ## Through the bus controller -/

namespace RegAccess

variable (a : RegAccess) (bus : Bus) (host : Host) (data : BitVec 32) (command : TlmCommand)

theorem address_toNat : a.address.toNat = TIMER_MEMORY_ADDRESS_LO + a.offset := by
  have h := a.inside
  rw [address, BitVec.toNat_ofNat, Nat.mod_eq_of_lt]
  simp only [TIMER_MEMORY_ADDRESS_LO]
  omega

/-- The controller routes the access to the timer and overwrites its status. -/
theorem bTransport_eq : BusCtrl.bTransport bus host (a.trans data command) =
    .ok ({ bus with timer := (bus.timer.bTransport host (a.trans data command)).1 },
      (bus.timer.bTransport host (a.trans data command)).2.setResponseStatus .ok) := by
  have haddr : (a.trans data command).address.toNat = _ := a.address_toNat
  have hin := a.inside
  have hsize := a.size_mem
  unfold BusCtrl.bTransport
  rw [haddr]
  dsimp only [TIMER_MEMORY_ADDRESS_LO, TIMER_MEMORY_ADDRESS_HI, TIMERCMP_MEMORY_ADDRESS_LO,
    TIMERCMP_MEMORY_ADDRESS_HI, TO_HOST_ADDRESS]
  rw [if_neg (by omega), if_pos (by omega)]

/-- No access is refused. -/
theorem not_refused : ¬a.Refused bus host data command := by
  rintro ⟨r, hr, he, -⟩
  cases (a.bTransport_eq bus host data command).symm.trans hr
  cases he

section Aligned

variable {a bus host data} {h : Timer.Half} (ha : a.offset = 4 * h.index)

include ha

theorem trans_half : (a.trans data command).address.toNat =
    TIMER_MEMORY_ADDRESS_LO + 4 * h.index := ha ▸ a.address_toNat

theorem loaded_half : a.Loaded bus host data := by
  obtain ⟨ht, hd⟩ :=
    bus.timer.bTransport_half host (a.trans data .read) rfl (trans_half .read ha)
  refine ⟨_, a.bTransport_eq bus host data .read, rfl, ?_, fun i hi => ?_⟩
  · rw [ha]
    exact ht
  · have hi4 : i < 4 := by
      have h4 := a.size_mem
      omega
    have hs : i < (a.trans data .read).dataLength := hi
    show byte (bus.timer.bTransport host (a.trans data .read)).2.data i = _
    rw [hd, byte_copyBytes _ _ _ hi4, if_pos hs, ha, Timer.regByte_half _ _ hi4]

/-- A store to a half clears the bytes of the half that it does not bring. -/
theorem regByte_store {i : ℕ} (hi : i < 16) :
    (bus.timer.bTransport host (a.trans data .write)).1.regByte i =
      if a.offset ≤ i ∧ i < a.offset + 4 then
        if i < a.offset + a.size then byte data (i - a.offset) else 0
      else bus.timer.regByte i := by
  obtain ⟨k, hk⟩ := Timer.exists_half (n := i / 4) (by omega)
  have hr : i % 4 < 4 := Nat.mod_lt _ (by decide)
  have he : i = 4 * k.index + i % 4 := by omega
  generalize i % 4 = r at he hr
  subst he
  rw [Timer.regByte_half _ _ hr, Timer.half_write rfl (trans_half .write ha), ha,
    Timer.regByte_half _ _ hr]
  by_cases hkh : k = h
  · subst hkh
    rw [if_pos rfl, if_pos (by omega), Payload.auxValue, byte_copyBytes _ _ _ hr]
    have hsub : 4 * k.index + r - 4 * k.index = r := by omega
    have hz : byte (0 : BitVec 32) r = 0 := by
      apply BitVec.eq_of_getLsbD_eq
      simp [getLsbD_byte]
    rw [hsub, hz]
    exact if_congr (by show r < a.size ↔ _; omega) rfl rfl
  · have hne : k.index ≠ h.index := fun he => hkh (Timer.Half.index_inj he)
    rw [if_neg hkh, if_neg (by omega)]

theorem stored_half_iff : a.Stored bus host data ↔
    ∀ i, a.size ≤ i → i < 4 → bus.timer.regByte (a.offset + i) = 0 := by
  have hin := a.inside
  have hsize := a.size_mem
  have h16 : a.offset + 4 ≤ 16 := by
    rw [ha]
    cases h <;> decide
  constructor
  · rintro ⟨r, hr, -, hb⟩ i hs hi
    cases (a.bTransport_eq bus host data .write).symm.trans hr
    have hbi := hb (a.offset + i) (by omega)
    rw [regByte_store ha (by omega), if_pos (by omega), if_neg (by omega), if_neg (by omega)] at hbi
    exact hbi.symm
  · intro hz
    refine ⟨_, a.bTransport_eq bus host data .write, rfl, fun i hi => ?_⟩
    show (bus.timer.bTransport host (a.trans data .write)).1.regByte i = _
    rw [regByte_store ha hi]
    by_cases h1 : a.offset ≤ i ∧ i < a.offset + 4
    · by_cases h2 : i < a.offset + a.size
      · rw [if_pos h1, if_pos h2, if_pos ⟨h1.1, h2⟩]
      · have hzi := hz (i - a.offset) (by omega) (by omega)
        rw [Nat.add_sub_cancel' h1.1] at hzi
        rw [if_pos h1, if_neg h2, if_neg fun h => h2 h.2, hzi]
    · rw [if_neg h1, if_neg (by omega)]

end Aligned

section Misaligned

variable {a bus host data} (ha : a.offset % 4 ≠ 0)

include ha

theorem bTransport_misaligned : bus.timer.bTransport host (a.trans data command) =
    (bus.timer, (a.trans data command).setResponseStatus .addressError) := by
  refine Timer.bTransport_rejects fun hm => ?_
  have haddr : (a.trans data command).address.toNat = _ := a.address_toNat
  rw [haddr] at hm
  simp only [timerAddresses, List.mem_cons, List.not_mem_nil, or_false] at hm
  dsimp only [TIMER_MEMORY_ADDRESS_LO, TIMER_MEMORY_ADDRESS_HI, TIMERCMP_MEMORY_ADDRESS_LO,
    TIMERCMP_MEMORY_ADDRESS_HI] at hm
  omega

/-- A load returns what its variable held. -/
theorem not_loaded : ∃ data, ¬a.Loaded bus host data := by
  have hpos : 0 < a.size := by
    have h4 := a.size_mem
    omega
  refine ⟨(~~~(bus.timer.refreshed host a.offset).regByte a.offset).setWidth 32, ?_⟩
  rintro ⟨r, hr, -, -, hb⟩
  cases (a.bTransport_eq bus host _ .read).symm.trans hr
  have hb0 := hb 0 hpos
  rw [bTransport_misaligned .read ha, Nat.add_zero] at hb0
  generalize (bus.timer.refreshed host a.offset).regByte a.offset = x at hb0
  have hx : byte ((~~~x).setWidth 32) 0 = ~~~x := by
    rw [byte_setWidth _ (by decide)]
    exact BitVec.extractLsb'_eq_self
  have hbit := congrArg (fun y => y.getLsbD 0) (hx.symm.trans hb0)
  simp at hbit

/-- A store is lost. -/
theorem stored_misaligned_iff : a.Stored bus host data ↔
    ∀ i < a.size, byte data i = bus.timer.regByte (a.offset + i) := by
  have hin := a.inside
  constructor
  · rintro ⟨r, hr, -, hb⟩ i hi
    cases (a.bTransport_eq bus host data .write).symm.trans hr
    have hbi := hb (a.offset + i) (by omega)
    rw [bTransport_misaligned .write ha, if_pos (by omega), Nat.add_sub_cancel_left] at hbi
    exact hbi.symm
  · intro h
    refine ⟨_, a.bTransport_eq bus host data .write, rfl, fun i hi => ?_⟩
    rw [bTransport_misaligned .write ha]
    split
    next hi' =>
      have hbi := h (i - a.offset) (by omega)
      rw [Nat.add_sub_cancel' hi'.1] at hbi
      exact hbi.symm
    next => rfl

end Misaligned

theorem exists_half_of_aligned (ha : a.offset % 4 = 0) :
    ∃ h : Timer.Half, a.offset = 4 * h.index := by
  have hin := a.inside
  have hsize := a.size_mem
  obtain ⟨h, hh⟩ := Timer.exists_half (n := a.offset / 4) (by omega)
  exact ⟨h, by omega⟩

theorem loadBehaves_iff : a.LoadBehaves bus host ↔ a.offset % 4 = 0 := by
  have hload : a.LoadBehaves bus host ↔ ∀ data, a.Loaded bus host data :=
    forall_congr' fun data => or_iff_left (a.not_refused bus host data .read)
  rw [hload]
  by_cases ha : a.offset % 4 = 0
  · obtain ⟨h, hh⟩ := a.exists_half_of_aligned ha
    exact iff_of_true (fun _ => loaded_half hh) ha
  · obtain ⟨data', hd⟩ : ∃ data, ¬a.Loaded bus host data := not_loaded ha
    exact iff_of_false (fun h => hd (h data')) ha

theorem storeBehaves_iff : a.StoreBehaves bus host data ↔
    if a.offset % 4 = 0 then ∀ i, a.size ≤ i → i < 4 → bus.timer.regByte (a.offset + i) = 0
    else ∀ i < a.size, byte data i = bus.timer.regByte (a.offset + i) := by
  have hstore : a.StoreBehaves bus host data ↔ a.Stored bus host data :=
    or_iff_left (a.not_refused bus host data .write)
  rw [hstore]
  by_cases ha : a.offset % 4 = 0
  · obtain ⟨h, hh⟩ := a.exists_half_of_aligned ha
    rw [if_pos ha]
    exact stored_half_iff hh
  · rw [if_neg ha]
    exact stored_misaligned_iff ha

/-- Inside the registers a load behaves as one of bytes exactly when it starts at a half, and a
store exactly when it starts at a half whose other bytes are zero or brings what is there. -/
theorem registersAsBytes_iff :
    (a.LoadBehaves bus host ↔ a.offset % 4 = 0) ∧
    (a.StoreBehaves bus host data ↔
      if a.offset % 4 = 0 then ∀ i, a.size ≤ i → i < 4 → bus.timer.regByte (a.offset + i) = 0
      else ∀ i < a.size, byte data i = bus.timer.regByte (a.offset + i)) :=
  ⟨loadBehaves_iff a bus host, storeBehaves_iff a bus host data⟩

/-- A byte load and a byte store at offset 1 with `mtimecmp` as constructed, and a byte store over
an `mtime` of all ones. -/
theorem not_registersAsBytes :
    let bus : Bus := ⟨⟨fun _ => 0, false⟩, ⟨-1, 0, none⟩, ⟨[]⟩, false⟩
    let host : Host := ⟨0, id, fun _ => 0⟩
    ¬RegAccess.LoadBehaves ⟨1, 1, by decide, by decide⟩ bus host ∧
    ¬RegAccess.StoreBehaves ⟨9, 1, by decide, by decide⟩ bus host 5 ∧
    ¬RegAccess.StoreBehaves ⟨0, 1, by decide, by decide⟩ bus host 5 := by
  refine ⟨fun h => ?_, fun h => ?_, fun h => ?_⟩
  · exact absurd ((loadBehaves_iff _ _ _).mp h) (by decide)
  · exact absurd ((storeBehaves_iff _ _ _ _).mp h 0 (by decide)) (by decide)
  · exact absurd ((storeBehaves_iff _ _ _ _).mp h 1 (by decide) (by decide)) (by decide)

end RegAccess

end RiscvTlm
