import RiscvTlm.DebugRequests

/-!
# Frames read back

A frame of `send_packet`, received in one piece into a buffer with any old contents. The checksum
sums characters that are signed, in 32 bits, which does not show in its low byte. The text between
the marks is the payload unless a null character in it ends the search for the `#`.
-/

namespace RiscvTlm.Debug

open CString

variable {p : List (BitVec 8)} {b : BitVec 8}

/-- The characters of a byte string. -/
def chars (p : List (BitVec 8)) : List Char := p.map fun b => Char.ofNat b.toNat

/-- The sum of the bytes, without their signs. -/
def byteSum (p : List (BitVec 8)) : ℕ := (p.map BitVec.toNat).sum % 256

/-- The frame of the payload gives it back through any buffer, behind any buffer it was sent from,
and ends with the two digits of its sum. -/
def RoundTrips (p : List (BitVec 8)) : Prop :=
  ∀ iobuf iobuf' : Iobuf, ∃ sent sentFrom receivedInto,
    sendPacket iobuf (chars p) = .ok (sentFrom, sent) ∧
    receivePacket iobuf' (some sent) = .ok (receivedInto, chars p) ∧
    sent.drop (sent.length - 2) =
      [Nat.digitChar (byteSum p / 16), Nat.digitChar (byteSum p % 16)]

/-! ## The checksum -/

theorem toNat_ofNat_byte (b : BitVec 8) : (Char.ofNat b.toNat).toNat = b.toNat :=
  (by decide +kernel : ∀ n < 256, (Char.ofNat n).toNat = n) b.toNat b.isLt

/-- A sign in the upper bits does not show in the low byte. -/
theorem toNat_signExtend_mod (b : BitVec 8) : (b.signExtend 32).toNat % 256 = b.toNat := by
  have h : (b.signExtend 32).setWidth 8 = b := by
    rw [BitField.setWidth_signExtend_of_le b (by decide), BitVec.signExtend_eq]
  have hn := congrArg BitVec.toNat h
  rwa [BitVec.toNat_setWidth] at hn

theorem checksum_foldl (p : List (BitVec 8)) (sum : BitVec 32) :
    ((chars p).foldl (fun sum c => sum + (BitVec.ofNat 8 c.toNat).signExtend 32) sum).toNat % 256 =
      (sum.toNat + (p.map BitVec.toNat).sum) % 256 := by
  induction p generalizing sum with
  | nil => rfl
  | cons b p ih =>
    have hb := toNat_signExtend_mod b
    have hbyte : BitVec.ofNat 8 (Char.ofNat b.toNat).toNat = b := by
      rw [toNat_ofNat_byte, BitVec.ofNat_toNat, BitVec.setWidth_eq]
    have hstep := ih (sum + b.signExtend 32)
    rw [BitVec.toNat_add] at hstep
    rw [chars, List.map_cons, List.foldl_cons, hbyte, List.map_cons, List.sum_cons]
    refine hstep.trans ?_
    omega

theorem nibbleToHex_eq {n : ℕ} (h : n < 16) : nibbleToHex.getD n '0' = Nat.digitChar n :=
  (by decide : ∀ n < 16, nibbleToHex.getD n '0' = Nat.digitChar n) n h

/-- The checksum has the digits of the sum. -/
theorem computeChecksumString_chars (p : List (BitVec 8)) : computeChecksumString (chars p) =
    [Nat.digitChar (byteSum p / 16), Nat.digitChar (byteSum p % 16)] := by
  have hsum := checksum_foldl p 0
  have h0 : (0 : BitVec 32).toNat = 0 := rfl
  rw [h0, Nat.zero_add] at hsum
  have hlt : byteSum p < 256 := Nat.mod_lt _ (by decide)
  unfold computeChecksumString
  dsimp only
  rw [hsum]
  show [nibbleToHex.getD (byteSum p / 16) '0', nibbleToHex.getD (byteSum p % 16) '0'] = _
  rw [nibbleToHex_eq (by omega), nibbleToHex_eq (by omega)]

/-! ## The text between the marks -/

theorem length_chars (p : List (BitVec 8)) : (chars p).length = p.length := List.length_map _

theorem drop_frame (reply : List Char) :
    (frame reply).drop ((frame reply).length - 2) = computeChecksumString reply := by
  rw [length_frame]
  exact List.drop_left' (by simp)

/-- The two marks in front are none of the characters that the search ends at. -/
theorem not_mem_marks {c : Char} {reply : List Char} (hc : c ≠ '+' ∧ c ≠ '$') (h : c ∉ reply) :
    c ∉ '+' :: '$' :: reply :=
  List.not_mem_cons_of_ne_of_not_mem hc.1 (List.not_mem_cons_of_ne_of_not_mem hc.2 h)

theorem receivePacket_frame (iobuf : Iobuf) {reply : List Char}
    (hlen : reply.length + 5 ≤ bufsize) (hh : '#' ∉ reply) (h0 : '\x00' ∉ reply) :
    receivePacket iobuf (some (frame reply)) = .ok (iobuf.write (frame reply), reply) := by
  have hf : frame reply = ['+'] ++ '$' :: (reply ++ '#' :: computeChecksumString reply) := by
    simp [frame]
  rw [← length_frame, hf] at hlen
  rw [hf]
  exact receivePacket_onePacket iobuf hlen (by decide) (not_mem_marks (by decide) hh)
    (not_mem_marks (by decide) h0)

/-- The search for the `#` ends at a null character, and its result is not looked at. -/
theorem receivePacket_null (iobuf : Iobuf) {reply : List Char}
    (hlen : reply.length + 5 ≤ bufsize) (hh : '#' ∉ reply) (h0 : '\x00' ∈ reply) :
    receivePacket iobuf (some (frame reply)) = .error (.fault .undefinedBehaviour) := by
  obtain ⟨pre, post, rfl⟩ := List.append_of_mem h0
  have h2 : 2 ≤ (frame (pre ++ '\x00' :: post)).length := by
    rw [length_frame]
    omega
  have hf : frame (pre ++ '\x00' :: post) = ('+' :: '$' :: pre) ++ '\x00' ::
      (post ++ '#' :: computeChecksumString (pre ++ '\x00' :: post)) := by
    simp [frame]
  rw [← length_frame] at hlen
  rw [receivePacket_long iobuf h2, write_val iobuf hlen]
  generalize iobuf.val.drop _ = rest
  have hpre : '#' ∉ '+' :: '$' :: pre :=
    not_mem_marks (by decide) fun h => hh (List.mem_append_left _ h)
  have hstop : strchr (frame (pre ++ '\x00' :: post) ++ rest) '#' = none := by
    rw [hf, List.append_assoc, List.cons_append]
    exact strchr_of_null hpre (by decide)
  rw [hstop]
  split
  next h => cases h
  next => rfl

/-- A payload without the marks that fits the buffer is read back, with the digits of its sum,
exactly when it has no zero byte. -/
theorem roundTrips_iff (hfit : p.length + 5 ≤ bufsize) (hh : '#' ∉ chars p) :
    RoundTrips p ↔ '\x00' ∉ chars p := by
  rw [← length_chars] at hfit
  constructor
  · intro h h0
    obtain ⟨sent, sentFrom, into, hs, hr, -⟩ := h .zero .zero
    cases (sendPacket_eq .zero hfit).symm.trans hs
    cases (receivePacket_null .zero hfit hh h0).symm.trans hr
  · intro h0 iobuf iobuf'
    refine ⟨_, _, _, sendPacket_eq iobuf hfit, receivePacket_frame iobuf' hfit hh h0, ?_⟩
    rw [drop_frame, computeChecksumString_chars]

/-- Signs, a digit that is carried out of the byte, and a stale buffer. -/
theorem roundTrips_signed : RoundTrips [0x80, 0xFF, 0x2B, 0x31] :=
  (roundTrips_iff (by decide) (by decide)).mpr (by decide)

/-- The frame of a single zero byte. -/
theorem not_roundTrips_zero : ¬∀ p : List (BitVec 8),
    p.length + 5 ≤ bufsize → '$' ∉ chars p → '#' ∉ chars p → RoundTrips p := by
  intro h
  obtain ⟨sent, sentFrom, into, hs, hr, -⟩ := h [0] (by decide) (by decide) (by decide) .zero .zero
  cases (sendPacket_eq .zero (by decide)).symm.trans hs
  cases (receivePacket_null .zero (by decide) (by decide) (by decide)).symm.trans hr

end RiscvTlm.Debug
