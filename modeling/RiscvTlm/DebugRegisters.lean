import RiscvTlm.DebugRequests
import RiscvTlm.DataAccess

/-!
# Register access of the debugger

`p` sends the low word of a register behind the zeros of the wide reply, `g` the registers of a
narrow CPU without `x0` and the PC, and `P` reads its digits as a number with the highest first and
writes it to the register after the one named.
-/

namespace RiscvTlm.Debug

open HexText Bytes

variable {T : CpuType} {n : ℕ}

/-! ## Reads -/

/-- The reply to `p n` is the bytes of the register, or of the PC, in the order of the target. -/
def ReadsFaithful (d : Debug T) (n : ℕ) : Prop :=
  ∃ reply, d.replyTo (readRequest n) = some reply ∧ reply.length = 2 * (T.xlen / 8) ∧
    HexText.bytes (T.xlen / 8) reply = some (targetBytes (d.registerOrPC n))

/-- The reply to `g` is the replies to `p 0` up to `p 32`. -/
def ReadsTogether (d : Debug T) : Prop :=
  d.replyTo ['g'] = some ((List.range 33).flatMap fun n => (d.replyTo (readRequest n)).getD [])

theorem replyTo_readRequest (d : Debug T) (hn : n ≤ 32) :
    d.replyTo (readRequest n) = some (targetDigits (shown (d.registerOrPC n))) := by
  rw [replyTo, handleMessage_readRequest 0 d hn]
  rfl

theorem length_targetBytes (x : BitVec T.xlen) : (targetBytes x).length = T.xlen / 8 := by
  rw [targetBytes, List.length_map, List.length_range]

theorem targetBytes_inj {x y : BitVec T.xlen} : targetBytes x = targetBytes y ↔ x = y := by
  refine ⟨fun h => ?_, fun h => congrArg targetBytes h⟩
  have hb : ∀ i < T.xlen / 8, byte x i = byte y i := fun i hi =>
    List.map_inj_left.mp h i (List.mem_range.mpr hi)
  cases T with
  | RV32 =>
    calc x = ofBytes (8 * 4) (byte x) 4 := (ofBytes_byte (k := 4) x).symm
      _ = ofBytes (8 * 4) (byte y) 4 := ofBytes_congr hb
      _ = y := ofBytes_byte (k := 4) y
  | RV64 =>
    calc x = ofBytes (8 * 8) (byte x) 8 := (ofBytes_byte (k := 8) x).symm
      _ = ofBytes (8 * 8) (byte y) 8 := ofBytes_congr hb
      _ = y := ofBytes_byte (k := 8) y

theorem targetDigits_inj {x y : BitVec T.xlen} : targetDigits x = targetDigits y ↔ x = y :=
  ⟨fun h => targetBytes_inj.mp (text_inj h), fun h => congrArg targetDigits h⟩

theorem length_targetDigits (x : BitVec T.xlen) : (targetDigits x).length = 2 * (T.xlen / 8) := by
  rw [targetDigits, length_text, length_targetBytes]

/-- The digits of a value read back. -/
theorem bytes_targetDigits (x : BitVec T.xlen) :
    HexText.bytes (T.xlen / 8) (targetDigits x) = some (targetBytes x) := by
  have h := bytes_text (targetBytes x) []
  rwa [List.append_nil, length_targetBytes] at h

theorem shiftLeft_eq_self_iff (x : BitVec 64) : x <<< 32 = x ↔ x = 0#64 := by
  constructor
  · intro h
    have h2 : x <<< 32 <<< 32 = x := by rw [h, h]
    rw [← BitVec.shiftLeft_add] at h2
    exact h2.symm.trans (BitVec.shiftLeft_eq_zero le_rfl)
  · rintro rfl
    exact BitVec.zero_shiftLeft 32

theorem shown_eq_iff (x : BitVec T.xlen) : shown x = x ↔ T = .RV32 ∨ x = 0 := by
  cases T with
  | RV32 => exact iff_of_true rfl (.inl rfl)
  | RV64 => exact (shiftLeft_eq_self_iff x).trans (or_iff_right nofun).symm

/-- A register of a wide CPU is sent as it is only if it is zero. -/
theorem readsFaithful_iff (d : Debug T) (hn : n ≤ 32) :
    ReadsFaithful d n ↔ T = .RV32 ∨ d.registerOrPC n = 0 := by
  rw [← shown_eq_iff, ← targetBytes_inj]
  unfold ReadsFaithful
  rw [replyTo_readRequest d hn]
  constructor
  · rintro ⟨_, ⟨⟩, -, hb⟩
    exact Option.some.inj ((bytes_targetDigits _).symm.trans hb)
  · intro h
    refine ⟨_, rfl, length_targetDigits _, ?_⟩
    rw [bytes_targetDigits, h]

theorem length_hexWidth {width n : ℕ} (hw : 0 < width) (h : n < 16 ^ width) :
    (hexWidth width n).length = width := by
  have hlen : (Nat.toDigits 16 n).length ≤ width :=
    (Nat.length_toDigits_le_iff (by decide) hw).mpr h
  rw [hexWidth, List.length_append, List.length_replicate, Nat.sub_add_cancel hlen]

/-- `g` sends less than the registers. -/
theorem length_readRegisters (d : Debug T) : d.readRegisters.length < 33 * (2 * (T.xlen / 8)) := by
  cases T with
  | RV32 =>
    have h : d.readRegisters.length = (List.range' 1 31).length * 8 :=
      length_flatMap_of_length fun i _ => length_hexWidth (by decide) (BitVec.isLt _)
    rw [h, List.length_range']
    decide
  | RV64 => exact (by decide : 0 < 33 * (2 * (64 / 8)))

theorem not_readsTogether (d : Debug T) : ¬ReadsTogether d := by
  intro h
  have hg : d.replyTo ['g'] = some d.readRegisters := by
    rw [replyTo, handleMessage_g]
    rfl
  have hlen := length_readRegisters d
  rw [Option.some.inj (hg.symm.trans h), length_flatMap_of_length (k := 2 * (T.xlen / 8)),
    List.length_range] at hlen
  · exact lt_irrefl _ hlen
  · intro i hi
    rw [replyTo_readRequest d (Nat.lt_succ_iff.mp (List.mem_range.mp hi))]
    exact length_targetDigits _

/-- Register reads: the reply to `p` is faithful for a narrow CPU and for zeros, that to `g` is not
the replies to `p` together. -/
theorem registerReads_iff (d : Debug T) :
    (∀ n ≤ 32, ReadsFaithful d n ↔ T = .RV32 ∨ d.registerOrPC n = 0) ∧ ¬ReadsTogether d :=
  ⟨fun _ hn => readsFaithful_iff d hn, not_readsTogether d⟩

/-- `x1` of a wide CPU with the value 1. -/
theorem not_readsFaithful_one :
    ¬ReadsFaithful ⟨(start .RV64 []).setReg 1 1, Iobuf.zero, fun _ => 0, ∅⟩ 1 ∧
    ¬ReadsTogether ⟨start .RV32 [], Iobuf.zero, fun _ => 0, ∅⟩ := by
  refine ⟨fun h => ?_, not_readsTogether _⟩
  exact absurd ((readsFaithful_iff _ (by decide)).mp h) (by decide)

/-! ## A write and then a read -/

/-- The value that `P` writes: the digits as a number with the highest first, at most the greatest
`long`, as an `int`. -/
def written (v : BitVec T.xlen) : BitVec T.xlen :=
  (BitVec.ofInt 32 (min (2 ^ 63 - 1) (value (targetBytes v)))).signExtend T.xlen

/-- The packets `P n=` with a value and `p n` are answered with `OK` and the digits of the value, of
zero for `x0`, and change no other register. -/
def WriteThenRead (d : Debug T) (n : ℕ) (v : BitVec T.xlen) : Prop :=
  ∃ d', d.handleGdbLoop 0 [some (packet (writeRequest n v)), some (packet (readRequest n))] =
      .ok (some (d', [frame "OK".toList, frame (targetDigits (if n = 0 then 0 else v))])) ∧
    (∀ m < 32, m ≠ n → d'.cpu.regs.getValue m = d.cpu.regs.getValue m) ∧
    (n ≠ 32 → d'.cpu.regs.getPC = d.cpu.regs.getPC)

/-- The state after a `P`. -/
def afterWrite (d : Debug T) (n : ℕ) (v : BitVec T.xlen) : Debug T :=
  { d with cpu := { d.cpu with regs := d.cpu.regs.setValue (n + 1) (written v) } }

theorem writeRegister_eq (d : Debug T) (v : BitVec T.xlen) (hn : n ≤ 32) :
    d.writeRegister (writeRequest n v) = .ok ((d.afterWrite n v).answer "OK".toList) := by
  have hends : Ends ('=' :: targetDigits v) := ends_cons (by decide) _
  have hreg : toLong (Nat.toDigits 16 n ++ '=' :: targetDigits v) =
      ((n : ℤ), '=' :: targetDigits v) := by
    rw [toLong_toDigits n hends]
    exact congrArg (·, _) (min_eq_right (by omega))
  have hval : toLong (targetDigits v) = (min (2 ^ 63 - 1) (value (targetBytes v) : ℤ), []) := by
    refine toLong_text ?_
    rw [length_targetBytes]
    cases T <;> decide
  have hindex : (BitVec.ofInt 32 ((n : ℤ) + 1)).toNat = n + 1 := by
    have hcast : ((n : ℤ) + 1) = ((n + 1 : ℕ) : ℤ) := rfl
    rw [hcast, BitVec.ofInt_natCast, BitVec.toNat_ofNat, Nat.mod_eq_of_lt (by omega)]
  unfold writeRegister writeRequest
  simp only [suffixFrom_one, hreg, hval, bind, Except.bind, pure, Except.pure, hindex]
  rfl

theorem not_mem_writeRequest (v : BitVec T.xlen) {c : Char} (hc : CString.digit c = none)
    (hP : c ≠ 'P') (he : c ≠ '=') : c ∉ writeRequest n v := by
  intro h
  rcases List.mem_cons.mp h with h | h
  · exact hP h
  · rcases List.mem_append.mp h with h | h
    · exact not_mem_of_digit digit_of_mem_toDigits hc h
    · rcases List.mem_cons.mp h with h | h
      · exact he h
      · exact not_mem_of_digit digit_of_mem_text hc h

theorem not_mem_readRequest {c : Char} (hc : CString.digit c = none) (hp : c ≠ 'p') :
    c ∉ readRequest n := by
  intro h
  rcases List.mem_cons.mp h with h | h
  · exact hp h
  · exact not_mem_of_digit digit_of_mem_toDigits hc h

theorem length_toDigits (hn : n ≤ 32) : (Nat.toDigits 16 n).length ≤ 2 :=
  (Nat.length_toDigits_le_iff (by decide) (by decide)).mpr (by omega)

theorem length_targetDigits_le (x : BitVec T.xlen) : (targetDigits x).length ≤ 16 := by
  rw [length_targetDigits]
  cases T <;> decide

theorem registerOrPC_afterWrite (d : Debug T) (v : BitVec T.xlen) :
    (d.afterWrite n v).registerOrPC n = d.registerOrPC n := by
  unfold registerOrPC afterWrite
  split
  next h => exact Registers.getValue_setValue_ne _ _ h (by omega)
  next => exact Registers.setValue_registerPC _ _ _

theorem handleGdbLoop_read (d : Debug T) (hn : n ≤ 32) :
    ∃ iobuf, d.handleGdbLoop 0 [some (packet (readRequest n))] =
      .ok (some ({ d with iobuf := iobuf },
        [frame (targetDigits (shown (d.registerOrPC n)))])) := by
  have hn2 := length_toDigits hn
  have hx : (targetDigits (shown (d.registerOrPC n))).length + 5 ≤ bufsize :=
    (Nat.add_le_add_right (length_targetDigits_le _) 5).trans (by decide)
  have hlen : (readRequest n).length + 4 ≤ bufsize := by
    simp only [readRequest, List.length_cons, bufsize]
    omega
  have hr := receivePacket_packet d.iobuf hlen (not_mem_readRequest (by decide) (by decide))
    (not_mem_readRequest (by decide) (by decide))
  have hm := handleMessage_readRequest 0
    { d with iobuf := d.iobuf.write (packet (readRequest n)) } hn
  exact ⟨_, handleGdbLoop_answer hr hm (sendPacket_eq _ hx) rfl⟩

/-- The two replies and the state. -/
theorem handleGdbLoop_writeRead (d : Debug T) (v : BitVec T.xlen) (hn : n ≤ 32) :
    ∃ iobuf, d.handleGdbLoop 0 [some (packet (writeRequest n v)), some (packet (readRequest n))] =
      .ok (some ({ d.afterWrite n v with iobuf := iobuf },
        [frame "OK".toList, frame (targetDigits (shown (d.registerOrPC n)))])) := by
  have hn2 := length_toDigits hn
  have hv := length_targetDigits_le v
  have hlen : (writeRequest n v).length + 4 ≤ bufsize := by
    simp only [writeRequest, List.length_cons, List.length_append, bufsize]
    omega
  have hr := receivePacket_packet d.iobuf hlen
    (not_mem_writeRequest v (by decide) (by decide) (by decide))
    (not_mem_writeRequest v (by decide) (by decide) (by decide))
  have hm (d' : Debug T) : handleMessage 0 d' (writeRequest n v) =
      .ok (some ((d'.afterWrite n v).answer "OK".toList)) := by
    rw [writeRequest, handleMessage_P, ← writeRequest, writeRegister_eq d' v hn]
    rfl
  obtain ⟨iobuf, hread⟩ := handleGdbLoop_read
    { d.afterWrite n v with
      iobuf := (d.iobuf.write (packet (writeRequest n v))).write (frame "OK".toList) } hn
  refine ⟨iobuf, handleGdbLoop_answer hr (hm _) (sendPacket_eq _ (by decide)) ?_⟩
  rw [← d.registerOrPC_afterWrite v]
  exact hread

theorem frame_inj {a b : List Char} (h : frame a = frame b) : a = b := by
  have hlen := congrArg List.length h
  rw [length_frame, length_frame] at hlen
  simp only [frame, List.append_assoc] at h
  have h2 := List.append_cancel_left h
  exact (List.append_inj h2 (by omega)).1

section WriteThenRead

variable {d : Debug T} {v : BitVec T.xlen}

/-- The digits expected are those sent for the register. -/
theorem shown_eq_expected_iff : shown (d.registerOrPC n) = (if n = 0 then 0 else v) ↔
    n = 0 ∨ shown (d.registerOrPC n) = v := by
  split
  next h0 =>
    refine iff_of_true ?_ (.inl h0)
    rw [h0, registerOrPC, if_pos (by decide), Registers.getValue_zero]
    exact (shown_eq_iff 0).mpr (.inr rfl)
  next h0 => exact (or_iff_right h0).symm

theorem getValue_afterWrite {m : ℕ} (hm : m < 32) :
    (d.afterWrite n v).cpu.regs.getValue m =
      if m = n + 1 ∧ n + 1 ≠ 0 then written v else d.cpu.regs.getValue m :=
  Registers.getValue_setValue d.cpu.regs (n + 1) m (written v) hm

variable (hn : n ≤ 32)

include hn

theorem of_writeThenRead (h : WriteThenRead d n v) : (n = 0 ∨ shown (d.registerOrPC n) = v) ∧
    (31 ≤ n ∨ d.cpu.regs.getValue (n + 1) = written v) := by
  obtain ⟨iobuf, hloop⟩ := d.handleGdbLoop_writeRead v hn
  obtain ⟨d', h, hregs, -⟩ := h
  obtain ⟨rfl, hframes⟩ := Prod.mk.inj (Option.some.inj (Except.ok.inj (hloop.symm.trans h)))
  have hreply := frame_inj (List.cons.inj (List.cons.inj hframes).2).1
  refine ⟨shown_eq_expected_iff.mp (targetDigits_inj.mp hreply), ?_⟩
  by_contra hc
  obtain ⟨hlt, hne⟩ := not_or.mp hc
  have hnext := hregs (n + 1) (by omega) (by omega)
  have hset : (d.afterWrite n v).cpu.regs.getValue (n + 1) = written v :=
    (getValue_afterWrite (by omega)).trans (if_pos ⟨rfl, by omega⟩)
  exact hne (hnext.symm.trans hset)

/-- A write and then a read of a register work exactly when the register, as it is sent, already
holds the value, and the register that is written already holds what it gets. -/
theorem writeThenRead_iff :
    WriteThenRead d n v ↔ (n = 0 ∨ shown (d.registerOrPC n) = v) ∧
      (31 ≤ n ∨ d.cpu.regs.getValue (n + 1) = written v) := by
  refine ⟨of_writeThenRead hn, fun ⟨hreply, hstate⟩ => ?_⟩
  obtain ⟨iobuf, hloop⟩ := d.handleGdbLoop_writeRead v hn
  rw [shown_eq_expected_iff.mpr hreply] at hloop
  refine ⟨_, hloop, fun m hm hne => (getValue_afterWrite hm).trans ?_,
    fun _ => Registers.setValue_registerPC _ _ _⟩
  split
  next h =>
    obtain ⟨rfl, -⟩ := h
    exact (hstate.resolve_left (by omega)).symm
  next => rfl

end WriteThenRead

/-- `x31`, which holds the value before. -/
theorem writeThenRead_last : WriteThenRead
    ⟨(start .RV32 []).setReg 31 0x12345678, Iobuf.zero, fun _ => 0, ∅⟩ 31 0x12345678 :=
  (writeThenRead_iff (by decide)).mpr ⟨.inr rfl, .inl le_rfl⟩

/-- `x1` with zeros everywhere. -/
theorem not_writeThenRead_first :
    ¬WriteThenRead ⟨start .RV32 [], Iobuf.zero, fun _ => 0, ∅⟩ 1 0x12345678 :=
  fun h => absurd (of_writeThenRead (by decide) h).1 (by decide)

end RiscvTlm.Debug
