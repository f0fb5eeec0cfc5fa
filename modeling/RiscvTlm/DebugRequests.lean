import RiscvTlm.PacketStream
import RiscvTlm.Lib.HexText

/-!
# Requests of the debugger

The messages that read and write a register and read memory, as a client sends them, and what
`handle_gdb_loop` makes of their numbers.
-/

namespace RiscvTlm.Debug

open CString HexText Bytes

variable {T : CpuType} {s : List Char} {n : ℕ}

/-- The bytes of a register value in the order of the target. -/
def targetBytes (x : BitVec T.xlen) : List (BitVec 8) := (List.range (T.xlen / 8)).map (byte x)

/-- The digits of a register value in the order of the target. -/
def targetDigits (x : BitVec T.xlen) : List Char := text (targetBytes x)

/-- `p n`. -/
def readRequest (n : ℕ) : List Char := 'p' :: Nat.toDigits 16 n

/-- `P n=`. -/
def writeRequest (n : ℕ) (v : BitVec T.xlen) : List Char :=
  'P' :: (Nat.toDigits 16 n ++ '=' :: targetDigits v)

/-- `m addr,len`. -/
def memoryRequest (addr len : ℕ) : List Char :=
  'm' :: (Nat.toDigits 16 addr ++ ',' :: Nat.toDigits 16 len)

/-- The reply to a message. -/
def replyTo (d : Debug T) (msg : List Char) : Option (List Char) :=
  match handleMessage 0 d msg with
  | .ok (some a) => a.reply
  | _ => none

/-- A packet with its checksum. -/
def packet (msg : List Char) : List Char := '$' :: (msg ++ '#' :: computeChecksumString msg)

/-- What is sent for a reply. -/
def frame (reply : List Char) : List Char :=
  ['+', '$'] ++ reply ++ ['#'] ++ computeChecksumString reply

/-! ## Turns of the loop -/

/-- A message that is answered, and what comes after it. -/
theorem handleGdbLoop_answer {fuel : ℕ} {d d' d'' : Debug T} {received : Option (List Char)}
    {rest : List (Option (List Char))} {iobuf iobuf' : Iobuf} {msg reply frame : List Char}
    {frames : List (List Char)} (hr : receivePacket d.iobuf received = .ok (iobuf, msg))
    (hm : handleMessage fuel { d with iobuf := iobuf } msg = .ok (some (d'.answer reply)))
    (hs : sendPacket d'.iobuf reply = .ok (iobuf', frame))
    (hrest : handleGdbLoop fuel { d' with iobuf := iobuf' } rest = .ok (some (d'', frames))) :
    handleGdbLoop fuel d (received :: rest) = .ok (some (d'', frame :: frames)) := by
  simp only [handleGdbLoop, hr, hm, hs, hrest, answer, bind, Except.bind, pure, Except.pure]
  rfl

theorem length_frame (reply : List Char) : (frame reply).length = reply.length + 5 := by
  simp only [frame, List.length_append, computeChecksumString, List.length_cons, List.length_nil]
  omega

theorem sendPacket_eq (iobuf : Iobuf) {reply : List Char} (h : reply.length + 5 ≤ bufsize) :
    sendPacket iobuf reply = .ok (iobuf.write (frame reply), frame reply) :=
  if_pos ((length_frame reply).trans_le h)

theorem sendPacket_fits {reply : List Char} (iobuf : Iobuf) (h : reply.length + 5 ≤ bufsize) :
    ∃ r, sendPacket iobuf reply = .ok r := ⟨_, sendPacket_eq iobuf h⟩

/-- The message of a packet, with any buffer. -/
theorem receivePacket_packet (iobuf : Iobuf) {msg : List Char} (hlen : msg.length + 4 ≤ bufsize)
    (hh : '#' ∉ msg) (h0 : '\x00' ∉ msg) :
    receivePacket iobuf (some (packet msg)) = .ok (iobuf.write (packet msg), msg) := by
  show receivePacket iobuf (some ([] ++ '$' :: (msg ++ '#' :: computeChecksumString msg))) = _
  refine receivePacket_onePacket iobuf ?_ List.not_mem_nil ?_ ?_
  · simp only [List.nil_append, List.length_cons, List.length_append, computeChecksumString,
      List.length_nil]
    omega
  · exact List.not_mem_cons_of_ne_of_not_mem (by decide) hh
  · exact List.not_mem_cons_of_ne_of_not_mem (by decide) h0

theorem handleMessage_p (fuel : ℕ) (d : Debug T) (rest : List Char) :
    handleMessage fuel d ('p' :: rest) = some <$> d.readRegister ('p' :: rest) := by
  simp [handleMessage]

theorem handleMessage_P (fuel : ℕ) (d : Debug T) (rest : List Char) :
    handleMessage fuel d ('P' :: rest) = some <$> d.writeRegister ('P' :: rest) := by
  simp [handleMessage]

theorem handleMessage_m (fuel : ℕ) (d : Debug T) (rest : List Char) :
    handleMessage fuel d ('m' :: rest) = some <$> d.readMemory ('m' :: rest) := by
  simp [handleMessage]

theorem handleMessage_g (fuel : ℕ) (d : Debug T) :
    handleMessage fuel d ['g'] = .ok (some (d.answer d.readRegisters)) := by
  simp [handleMessage]

/-! ## Numbers -/

/-- What ends a number. -/
def Ends (s : List Char) : Prop := ∀ c ∈ s.head?, digit c = none ∧ c ≠ 'x' ∧ c ≠ 'X'

theorem ends_cons {c : Char} (h : digit c = none ∧ c ≠ 'x' ∧ c ≠ 'X') (s : List Char) :
    Ends (c :: s) := by
  rintro _ ⟨⟩
  exact h

theorem toLong_toDigits (n : ℕ) (hs : Ends s) :
    toLong (Nat.toDigits 16 n ++ s) = (min (2 ^ 63 - 1) (n : ℤ), s) := by
  have hmax : max (-2 ^ 63) (min (2 ^ 63 - 1) (n : ℤ)) = min (2 ^ 63 - 1) (n : ℤ) :=
    max_eq_right (by omega)
  rw [toLong, strtol_toDigits n hs]
  exact congrArg (·, s) hmax

theorem toLong_toDigits_nil (n : ℕ) :
    toLong (Nat.toDigits 16 n) = (min (2 ^ 63 - 1) (n : ℤ), []) := by
  have h := toLong_toDigits (s := []) n nofun
  rwa [List.append_nil] at h

theorem toLong_text {bs : List (BitVec 8)} (h : 0 < bs.length) :
    toLong (text bs) = (min (2 ^ 63 - 1) (value bs : ℤ), []) := by
  have hb := bytes_text bs []
  rw [List.append_nil] at hb
  have hmax : max (-2 ^ 63) (min (2 ^ 63 - 1) (value bs : ℤ)) = min (2 ^ 63 - 1) (value bs : ℤ) :=
    max_eq_right (by omega)
  rw [toLong, strtol_bytes hb (length_text bs) h]
  exact congrArg (·, []) hmax

theorem hexWidth_value (b : BitVec 8) (bs : List (BitVec 8)) :
    hexWidth (2 * (bs.length + 1)) (value (b :: bs)) = text (b :: bs) := by
  have hpos : 0 < 2 * (b :: bs).length := Nat.mul_pos (by decide) (Nat.succ_pos _)
  rw [← fixed_value, ← fixed_eq hpos (value_lt (b :: bs))]
  rfl

theorem suffixFrom_one (c : Char) (s : List Char) : suffixFrom (c :: s) 1 = .ok s :=
  if_pos (Nat.le_add_left 1 s.length)

/-- `htonl` puts the low byte first. -/
theorem toNat_htonl (x : BitVec 32) :
    (htonl x).toNat = value [byte x 0, byte x 1, byte x 2, byte x 3] := by
  rw [value_four]
  rfl

/-- The value whose digits are sent for a register: the low word of a wide one comes behind zeros,
where the high word has its place. -/
def shown : {T : CpuType} → BitVec T.xlen → BitVec T.xlen
  | .RV32, x => x
  | .RV64, x => x <<< 32

/-- `htonl` of a value is the number of its low bytes. -/
theorem htonl_value {w : ℕ} (x : BitVec w) : (htonl ((x.setWidth 64).setWidth 32)).toNat =
    value [byte x 0, byte x 1, byte x 2, byte x 3] := by
  have hb {i : ℕ} (hi : i < 4) : byte ((x.setWidth 64).setWidth 32) i = byte x i :=
    (byte_setWidth _ (by omega)).trans (byte_setWidth _ (by omega))
  rw [toNat_htonl, hb (by decide), hb (by decide), hb (by decide), hb (by decide)]

theorem targetBytes_shown_wide (x : BitVec 64) :
    targetBytes (T := .RV64) (shown (T := .RV64) x) =
      [0, 0, 0, 0, byte x 0, byte x 1, byte x 2, byte x 3] := by
  have hb {i : ℕ} (hi : i < 8) : byte (x <<< 32) i = if i < 4 then 0 else byte x (i - 4) :=
    byte_shiftLeft x 4 (by omega)
  show [byte (x <<< 32) 0, byte (x <<< 32) 1, byte (x <<< 32) 2, byte (x <<< 32) 3,
    byte (x <<< 32) 4, byte (x <<< 32) 5, byte (x <<< 32) 6, byte (x <<< 32) 7] = _
  rw [hb (by decide), hb (by decide), hb (by decide), hb (by decide), hb (by decide),
    hb (by decide), hb (by decide), hb (by decide)]
  rfl

/-- The value of a register, or of the PC by its number. -/
def registerOrPC (d : Debug T) (n : ℕ) : BitVec T.xlen :=
  if n < 32 then d.cpu.regs.getValue n else d.cpu.regs.getPC

theorem registerValue_eq (d : Debug T) (hn : n ≤ 32) :
    d.registerValue n = (d.registerOrPC n).setWidth 64 := by
  unfold registerValue registerOrPC
  by_cases h : n < 32
  · rw [if_pos (by omega), if_pos h, BitVec.ofInt_natCast, BitVec.toNat_ofNat,
      Nat.mod_eq_of_lt (by omega)]
  · obtain rfl : n = 32 := by omega
    rw [if_neg (by decide), if_pos (by decide), if_neg (by decide)]

theorem readRegister_eq (d : Debug T) (hn : n ≤ 32) :
    d.readRegister (readRequest n) =
      .ok (d.answer (targetDigits (shown (d.registerOrPC n)))) := by
  have hlong : toLong (Nat.toDigits 16 n) = ((n : ℤ), []) := by
    rw [toLong_toDigits_nil]
    exact congrArg (·, []) (min_eq_right (by omega))
  unfold readRegister readRequest
  rw [suffixFrom_one]
  show Except.ok _ = _
  rw [hlong, registerValue_eq d hn]
  generalize d.registerOrPC n = x
  cases T with
  | RV32 =>
    refine congrArg (fun reply => Except.ok (d.answer reply)) ?_
    show hexWidth 8 _ = _
    rw [htonl_value]
    exact hexWidth_value (byte x 0) [byte x 1, byte x 2, byte x 3]
  | RV64 =>
    refine congrArg (fun reply => Except.ok (d.answer reply)) ?_
    show hexWidth 16 _ = _
    rw [htonl_value, targetDigits, targetBytes_shown_wide]
    exact hexWidth_value 0 [0, 0, 0, byte x 0, byte x 1, byte x 2, byte x 3]

theorem handleMessage_readRequest (fuel : ℕ) (d : Debug T) (hn : n ≤ 32) :
    handleMessage fuel d (readRequest n) =
      .ok (some (d.answer (targetDigits (shown (d.registerOrPC n))))) := by
  rw [readRequest, handleMessage_p, ← readRequest, readRegister_eq d hn]
  rfl

end RiscvTlm.Debug
