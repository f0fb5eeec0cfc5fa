import RiscvTlm.Debug

/-!
# Packets in a stream

A stream of packets, and what `receive_packet` makes of a chunk of it in a buffer with any old
contents: a chunk of one character counts as an acknowledgement, and one with a packet up to its `#`
gives the payload. In an empty buffer nothing else is a message.
-/

namespace RiscvTlm.Debug

open CString

/-- A packet as the client sends it. -/
structure Packet where
  ack : Bool
  payload : List Char
  check : List Char
  payload_chars : '$' ∉ payload ∧ '#' ∉ payload
  check_length : check.length = 2
  check_digits : ∀ c ∈ check, (digit c).isSome = true

/-- The characters of a packet. -/
def Packet.chars (p : Packet) : List Char :=
  (if p.ack then ['+'] else []) ++ '$' :: (p.payload ++ '#' :: p.check)

/-! ## What a call returns -/

/-- A chunk with one packet up to its `#`, and perhaps characters of others around it. -/
def OnePacket (chunk : List Char) : Prop :=
  ∃ pre payload post, chunk = pre ++ '$' :: (payload ++ '#' :: post) ∧
    '$' ∉ pre ∧ '#' ∉ pre ∧ '$' ∉ payload ∧ '#' ∉ payload ∧ '$' ∉ post

/-- A single character that does not start a packet, or one packet. -/
def Aligned (chunk : List Char) : Prop :=
  (∃ c, chunk = [c] ∧ c ≠ '$') ∨ OnePacket chunk

variable {iobuf iobuf' : Iobuf} {chunk chunks' pre payload post msg : List Char} {c : Char}
  {chunks : List (List Char)} {packets : List Packet} {msgs : List (List Char)}

theorem write_val (iobuf : Iobuf) (h : chunk.length ≤ bufsize) :
    (iobuf.write chunk).val = chunk ++ iobuf.val.drop chunk.length := by
  have hlen := iobuf.property
  refine List.take_of_length_le ?_
  rw [List.length_append, List.length_drop]
  omega

/-- A chunk of more than one character is searched for the marks. -/
theorem receivePacket_long (iobuf : Iobuf) (h : 2 ≤ chunk.length) :
    receivePacket iobuf (some chunk) =
      match strchr (iobuf.write chunk).val '$', strchr (iobuf.write chunk).val '#' with
      | some start, some stop =>
        if start + 1 ≤ stop then
          .ok (iobuf.write chunk,
            ((iobuf.write chunk).val.drop (start + 1)).take (stop - (start + 1)))
        else .error .lengthError
      | _, _ => .error (.fault .undefinedBehaviour) := by
  match chunk, h with
  | _ :: _ :: _, _ => rfl

/-- The text between the marks. -/
theorem take_drop_marks (pre payload post : List Char) :
    ((pre ++ '$' :: (payload ++ '#' :: post)).drop (pre.length + 1)).take
      (pre.length + 1 + payload.length - (pre.length + 1)) = payload := by
  rw [Nat.add_sub_cancel_left, List.drop_length_add_append]
  exact List.take_left

/-- The message of a packet in one chunk, with any buffer. -/
theorem receivePacket_onePacket (iobuf : Iobuf)
    (hlen : (pre ++ '$' :: (payload ++ '#' :: post)).length ≤ bufsize) (hd : '$' ∉ pre)
    (hh : '#' ∉ pre ++ '$' :: payload) (h0 : '\x00' ∉ pre ++ '$' :: payload) :
    receivePacket iobuf (some (pre ++ '$' :: (payload ++ '#' :: post))) =
      .ok (iobuf.write (pre ++ '$' :: (payload ++ '#' :: post)), payload) := by
  have h2 : 2 ≤ (pre ++ '$' :: (payload ++ '#' :: post)).length := by
    simp only [List.length_append, List.length_cons]
    omega
  rw [receivePacket_long iobuf h2, write_val iobuf hlen]
  generalize iobuf.val.drop _ = rest
  have hval : pre ++ '$' :: (payload ++ '#' :: post) ++ rest =
      pre ++ '$' :: (payload ++ '#' :: (post ++ rest)) := by simp
  have hstart : strchr (pre ++ '$' :: (payload ++ '#' :: (post ++ rest))) '$' = some pre.length :=
    strchr_append hd fun h => h0 (List.mem_append_left _ h)
  have hstop : strchr (pre ++ '$' :: (payload ++ '#' :: (post ++ rest))) '#' =
      some (pre.length + 1 + payload.length) := by
    have h : strchr ((pre ++ '$' :: payload) ++ '#' :: (post ++ rest)) '#' = some _ :=
      strchr_append hh h0
    rw [List.append_assoc, List.cons_append] at h
    rw [h, List.length_append, List.length_cons]
    congr 1
    omega
  rw [hval, hstart, hstop]
  dsimp only
  rw [if_pos (Nat.le_add_right _ _), take_drop_marks]

/-- A character found in front of a tail of null characters. -/
theorem exists_of_append_zeros {k : ℕ} {t : List Char} (hc : c ≠ '\x00')
    (h : chunk ++ List.replicate k '\x00' = pre ++ c :: t) : ∃ post, chunk = pre ++ c :: post := by
  rcases List.append_eq_append_iff.mp h with ⟨a, -, ha⟩ | ⟨a, ha, hat⟩
  · have hmem : c ∈ List.replicate k '\x00' := ha ▸ List.mem_append_right _ List.mem_cons_self
    exact absurd (List.eq_of_mem_replicate hmem) hc
  · cases a with
    | nil =>
      have hmem : c ∈ List.replicate k '\x00' := by
        rw [List.nil_append] at hat
        exact hat ▸ List.mem_cons_self
      exact absurd (List.eq_of_mem_replicate hmem) hc
    | cons x a =>
      obtain ⟨rfl, -⟩ := List.cons.inj hat
      exact ⟨a, ha⟩

/-- Of two marks the second lies in what follows the first. -/
theorem exists_of_marks {a b : Char} {s t u v : List Char} (h : s ++ a :: t = u ++ b :: v)
    (hlt : s.length + 1 ≤ u.length) : ∃ m, u = s ++ a :: m := by
  rcases List.append_eq_append_iff.mp h with ⟨w, hw, hwt⟩ | ⟨w, hw, -⟩
  · cases w with
    | nil =>
      rw [hw, List.append_nil] at hlt
      omega
    | cons x w =>
      obtain ⟨rfl, -⟩ := List.cons.inj hwt
      exact ⟨w, hw⟩
  · rw [hw, List.length_append] at hlt
    omega

/-- With an empty buffer, a message is a single character or lies between marks of the chunk. -/
theorem receivePacket_zero (hne : chunk ≠ []) (hlen : chunk.length ≤ bufsize)
    (h : receivePacket .zero (some chunk) = .ok (iobuf', msg)) :
    (chunk.length = 1 ∧ msg = ['+']) ∨
      ∃ pre post, chunk = pre ++ '$' :: (msg ++ '#' :: post) ∧ '$' ∉ pre ∧
        '#' ∉ pre ++ '$' :: msg ∧ '\x00' ∉ pre ++ '$' :: msg := by
  by_cases h1 : chunk.length = 1
  · obtain ⟨c, rfl⟩ := List.length_eq_one_iff.mp h1
    cases h
    exact .inl ⟨rfl, rfl⟩
  right
  have hpos := List.length_pos_of_ne_nil hne
  rw [receivePacket_long _ (by omega), write_val _ hlen] at h
  have hzero : Iobuf.zero.val.drop chunk.length = List.replicate (bufsize - chunk.length) '\x00' :=
    List.drop_replicate
  rw [hzero] at h
  generalize bufsize - chunk.length = k at h
  cases hs : strchr (chunk ++ List.replicate k '\x00') '$' with
  | none =>
    rw [hs] at h
    cases h
  | some start =>
    cases ht : strchr (chunk ++ List.replicate k '\x00') '#' with
    | none =>
      rw [hs, ht] at h
      cases h
    | some stop =>
      rw [hs, ht] at h
      dsimp only at h
      split at h
      next hle =>
        obtain ⟨pre, t, hpre, rfl, hd, -⟩ := strchr_eq_some hs
        obtain ⟨u, v, hu, rfl, hh, h0⟩ := strchr_eq_some ht
        obtain ⟨m, rfl⟩ := exists_of_marks (hpre.symm.trans hu) hle
        obtain ⟨post, hpost⟩ := exists_of_append_zeros (by decide) hu
        have hmsg : m = msg := by
          rw [hu, List.append_assoc, List.cons_append] at h
          have hlen' : (pre ++ '$' :: m).length = pre.length + 1 + m.length := by
            rw [List.length_append, List.length_cons]
            omega
          rw [hlen', take_drop_marks] at h
          exact congrArg Prod.snd (Except.ok.inj h)
        subst hmsg
        refine ⟨pre, post, ?_, hd, hh, h0⟩
        rw [hpost, List.append_assoc, List.cons_append]
      next => cases h

/-! ## The payloads of a stream -/

/-- The texts between a `$` and the next `#`, with the text read so far of one that is open. -/
def frames : Option (List Char) → List Char → List (List Char)
  | _, [] => []
  | none, c :: s => if c = '$' then frames (some []) s else frames none s
  | some text, c :: s => if c = '#' then text :: frames none s else frames (some (text ++ [c])) s

theorem frames_none_append (h : '$' ∉ pre) (s : List Char) :
    frames none (pre ++ s) = frames none s := by
  induction pre with
  | nil => rfl
  | cons c pre ih =>
    rw [List.cons_append, frames, if_neg (List.ne_of_not_mem_cons h).symm,
      ih (List.not_mem_of_not_mem_cons h)]

theorem frames_some_append (h : '#' ∉ payload) (text s : List Char) :
    frames (some text) (payload ++ '#' :: s) = (text ++ payload) :: frames none s := by
  induction payload generalizing text with
  | nil => rw [List.nil_append, frames, if_pos rfl, List.append_nil]
  | cons c payload ih =>
    rw [List.cons_append, frames, if_neg (List.ne_of_not_mem_cons h).symm,
      ih (List.not_mem_of_not_mem_cons h), List.append_assoc, List.singleton_append]

/-- A packet with characters around it that start no other one. -/
theorem frames_packet (hpre : '$' ∉ pre) (hp : '#' ∉ payload) (hpost : '$' ∉ post) (s : List Char) :
    frames none (pre ++ '$' :: (payload ++ '#' :: (post ++ s))) = payload :: frames none s := by
  rw [frames_none_append hpre, frames, if_pos rfl, frames_some_append hp, List.nil_append,
    frames_none_append hpost]

namespace Packet

theorem not_mem_check (p : Packet) (hc : (digit c).isSome = false) : c ∉ p.check := fun h =>
  absurd (p.check_digits c h) (by rw [hc]; decide)

theorem not_mem_ack (p : Packet) (hc : c ≠ '+') : c ∉ if p.ack then ['+'] else [] := by
  split
  · exact fun h => hc (List.mem_singleton.mp h)
  · exact List.not_mem_nil

end Packet

/-- The stream of the packets holds their payloads. -/
theorem frames_flatMap (packets : List Packet) :
    frames none (packets.flatMap Packet.chars) = packets.map Packet.payload := by
  induction packets with
  | nil => rfl
  | cons p packets ih =>
    have hs : (p :: packets).flatMap Packet.chars = (if p.ack then ['+'] else []) ++
        '$' :: (p.payload ++ '#' :: (p.check ++ packets.flatMap Packet.chars)) := by
      simp [Packet.chars]
    rw [hs, frames_packet (p.not_mem_ack (by decide)) p.payload_chars.2
      (p.not_mem_check (by decide)), ih]
    rfl

/-- Each packet has one mark of each kind. -/
theorem count_flatMap (packets : List Packet) (hc : c = '$' ∨ c = '#') :
    (packets.flatMap Packet.chars).count c = packets.length := by
  have hplus : c ≠ '+' := by rcases hc with rfl | rfl <;> decide
  have hdigit : (digit c).isSome = false := by rcases hc with rfl | rfl <;> decide
  induction packets with
  | nil => rfl
  | cons p packets ih =>
    have hack := List.count_eq_zero.mpr (p.not_mem_ack hplus)
    have hpay : p.payload.count c = 0 := by
      rcases hc with rfl | rfl
      · exact List.count_eq_zero.mpr p.payload_chars.1
      · exact List.count_eq_zero.mpr p.payload_chars.2
    have hchk := List.count_eq_zero.mpr (p.not_mem_check hdigit)
    rw [List.flatMap_cons, List.count_append, ih, Packet.chars, List.count_append, hack,
      List.count_cons, List.count_append, hpay, List.count_cons, hchk, List.length_cons]
    rcases hc with rfl | rfl
    · show 0 + (0 + (0 + 0) + 1) + packets.length = packets.length + 1
      omega
    · show 0 + (0 + (0 + 1) + 0) + packets.length = packets.length + 1
      omega

theorem zero_not_mem_flatMap (h : ∀ p ∈ packets, '\x00' ∉ p.payload) :
    '\x00' ∉ packets.flatMap Packet.chars := by
  intro hmem
  obtain ⟨p, hp, hc⟩ := List.mem_flatMap.mp hmem
  rcases List.mem_append.mp hc with hc | hc
  · exact p.not_mem_ack (by decide) hc
  rcases List.mem_cons.mp hc with hc | hc
  · exact absurd hc (by decide)
  rcases List.mem_append.mp hc with hc | hc
  · exact h p hp hc
  rcases List.mem_cons.mp hc with hc | hc
  · exact absurd hc (by decide)
  · exact p.not_mem_check (by decide) hc

end RiscvTlm.Debug
