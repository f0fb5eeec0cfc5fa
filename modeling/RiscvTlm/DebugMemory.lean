import RiscvTlm.DebugRequests

/-!
# Memory reads of the debugger

`m` copies as many bytes as the client asks for into `pyld_array` and sends the whole array,
whatever was copied: the bytes behind the copy, or all of them when the address is outside the
memory, are those of earlier requests.
-/

namespace RiscvTlm.Debug

open CString HexText

variable {T : CpuType} {d : Debug T} {addr len : ℕ}

/-- The address that is read from its digits. -/
def requestAddress (addr : ℕ) : BitVec 64 := BitVec.ofInt 64 (min (2 ^ 63 - 1) addr)

/-- The length that is read from its digits, an `int` that becomes unsigned. -/
def requestLength (len : ℕ) : BitVec 32 := BitVec.ofInt 32 (min (2 ^ 63 - 1) len)

/-- The number of bytes that `transport_dbg` copies into `pyld_array`. -/
def copyLength (addr len : ℕ) : ℕ :=
  if (requestAddress addr).toNat ≥ Memory.SIZE then 0 else (requestLength len).toNat

/-- The bytes of the memory from an address on. -/
def memoryBytes (d : Debug T) (addr len : ℕ) : List (BitVec 8) :=
  (List.range len).map fun i => d.cpu.bus.memory.mem (addr + i)

/-- A read stays within `pyld_array` and `iobuf`, returns the bytes asked for, or the first of more
than 128, and outside the memory nothing of earlier requests. -/
structure ReadsMemory (d : Debug T) (addr len : ℕ) : Prop where
  inArray : copyLength addr len ≤ 128
  inIobuf : ∀ reply iobuf, d.replyTo (memoryRequest addr len) = some reply →
    ∃ r, sendPacket iobuf reply = .ok r
  exact : addr + len ≤ Memory.SIZE → len ≤ 128 →
    d.replyTo (memoryRequest addr len) = some (text (d.memoryBytes addr len))
  first : addr + len ≤ Memory.SIZE → 128 < len →
    ∃ k ≤ len, d.replyTo (memoryRequest addr len) = some (text (d.memoryBytes addr k))
  fresh : Memory.SIZE ≤ addr → ∃ reply, d.replyTo (memoryRequest addr len) = some reply ∧
    replyTo { d with pyldArray := fun _ => 0 } (memoryRequest addr len) = some reply

/-! ## What the handler does -/

theorem toNat_requestAddress (addr : ℕ) : (requestAddress addr).toNat = min (2 ^ 63 - 1) addr := by
  have hcast : (min (2 ^ 63 - 1) (addr : ℤ)) = ((min (2 ^ 63 - 1) addr : ℕ) : ℤ) := by omega
  rw [requestAddress, hcast, BitVec.ofInt_natCast, BitVec.toNat_ofNat]
  exact Nat.mod_eq_of_lt (by omega)

/-- An address outside the memory stays outside. -/
theorem requestAddress_ge_iff : (requestAddress addr).toNat ≥ Memory.SIZE ↔ Memory.SIZE ≤ addr := by
  rw [toNat_requestAddress, Memory.SIZE]
  omega

theorem toNat_requestLength (h : len ≤ Memory.SIZE) : (requestLength len).toNat = len := by
  unfold Memory.SIZE at h
  rw [requestLength, min_eq_right (by omega), BitVec.ofInt_natCast, BitVec.toNat_ofNat]
  exact Nat.mod_eq_of_lt (by omega)

/-- The digits of the whole array. -/
theorem flatMap_hexWidth (f : ℕ → BitVec 8) :
    ((List.range 128).flatMap fun i => hexWidth 2 (f i).toNat) = text ((List.range 128).map f) := by
  rw [text, List.flatMap_map]
  refine congrArg (fun g => (List.range 128).flatMap g) (funext fun i => ?_)
  have h := hexWidth_value (f i) []
  rw [show value [f i] = (f i).toNat from Nat.zero_add _] at h
  exact h

/-- The transaction of a request. -/
def requestPayload (d : Debug T) (addr len : ℕ) : DebugPayload :=
  ⟨.read, requestAddress addr, d.pyldArray, (requestLength len).toNat, .incomplete⟩

/-- What is copied, when the copy stays inside the memory. -/
theorem copied_eq {r : Memory.DebugTransport}
    (h : d.cpu.bus.memory.transportDbg (d.requestPayload addr len) = .ok r) :
    r.copied = copyLength addr len := by
  rw [Memory.transportDbg, requestPayload] at h
  rw [copyLength]
  by_cases hout : (requestAddress addr).toNat ≥ Memory.SIZE
  · rw [if_pos hout] at h ⊢
    cases h
    rfl
  · rw [if_neg hout] at h ⊢
    dsimp only at h
    split at h
    next =>
      cases h
      rfl
    next => cases h

theorem readMemory_eq (d : Debug T) (addr len : ℕ) :
    d.readMemory (memoryRequest addr len) =
      match d.cpu.bus.memory.transportDbg (d.requestPayload addr len) with
      | .error e => .error (.fault e)
      | .ok r =>
        if copyLength addr len ≤ 128 then
          .ok (answer { d with pyldArray := r.trans.data }
            (text ((List.range 128).map r.trans.data)))
        else .error (.fault .undefinedBehaviour) := by
  have hends : Ends (',' :: Nat.toDigits 16 len) := ends_cons (by decide) _
  unfold readMemory memoryRequest
  simp only [suffixFrom_one, toLong_toDigits addr hends, toLong_toDigits_nil, bind, Except.bind,
    flatMap_hexWidth]
  show (match d.cpu.bus.memory.transportDbg (d.requestPayload addr len) with
    | .error e => _
    | .ok r => _) = _
  cases hr : d.cpu.bus.memory.transportDbg (d.requestPayload addr len) with
  | error e => rfl
  | ok r =>
    rw [← copied_eq hr]
    rfl

theorem handleMessage_memoryRequest (d : Debug T) (addr len : ℕ) :
    handleMessage 0 d (memoryRequest addr len) = some <$> d.readMemory (memoryRequest addr len) :=
  handleMessage_m 0 d _

/-- Outside the memory the array is sent as it is. -/
theorem replyTo_outside (d : Debug T) (len : ℕ) (h : Memory.SIZE ≤ addr) :
    d.replyTo (memoryRequest addr len) = some (text ((List.range 128).map d.pyldArray)) := by
  have hcopy : copyLength addr len ≤ 128 := by
    rw [copyLength, if_pos (requestAddress_ge_iff.mpr h)]
    exact Nat.zero_le _
  rw [replyTo, handleMessage_memoryRequest, readMemory_eq, Memory.transportDbg, requestPayload,
    if_pos (requestAddress_ge_iff.mpr h)]
  dsimp only
  rw [if_pos hcopy]
  rfl

/-- Inside it the bytes copied are sent, and those behind them. -/
theorem replyTo_inside (d : Debug T) (h : addr + len ≤ Memory.SIZE) (hlt : addr < Memory.SIZE)
    (h128 : len ≤ 128) : d.replyTo (memoryRequest addr len) = some (text ((List.range 128).map
      fun i => if i < len then d.cpu.bus.memory.mem (addr + i) else d.pyldArray i)) := by
  have haddr : (requestAddress addr).toNat = addr := by
    rw [toNat_requestAddress]
    unfold Memory.SIZE at hlt
    omega
  have hlen := toNat_requestLength ((Nat.le_add_left len addr).trans h)
  have hcopy : copyLength addr len ≤ 128 := by
    rwa [copyLength, haddr, if_neg (not_le.mpr hlt), hlen]
  rw [replyTo, handleMessage_memoryRequest, readMemory_eq, Memory.transportDbg, requestPayload,
    haddr, hlen, if_neg (not_le.mpr hlt)]
  dsimp only
  rw [if_pos h]
  dsimp only
  rw [if_pos hcopy]
  rfl

theorem length_reply {reply : List Char} (h : d.replyTo (memoryRequest addr len) = some reply) :
    reply.length = 256 := by
  rw [replyTo, handleMessage_memoryRequest, readMemory_eq] at h
  have hlen (f : ℕ → BitVec 8) : (text ((List.range 128).map f)).length = 256 := by
    rw [length_text, List.length_map, List.length_range]
  split at h
  next a ha =>
    split at ha
    next => cases ha
    next r hr =>
      split at ha
      next =>
        cases ha
        cases h
        exact hlen _
      next => cases ha
  next => cases h

/-! ## When a read is right -/

theorem of_readsMemory (h : ReadsMemory d addr len) :
    if addr + len ≤ Memory.SIZE then len = 128
    else if Memory.SIZE ≤ addr then ∀ i < 128, d.pyldArray i = 0
    else (requestLength len).toNat ≤ 128 := by
  have harray := h.inArray
  rw [copyLength] at harray
  split
  next hin =>
    by_cases h128 : len ≤ 128
    · have hlen := length_reply (h.exact hin h128)
      rw [length_text, memoryBytes, List.length_map, List.length_range] at hlen
      omega
    · have hlt : ¬(requestAddress addr).toNat ≥ Memory.SIZE := by
        rw [requestAddress_ge_iff]
        omega
      rw [if_neg hlt, toNat_requestLength ((Nat.le_add_left len addr).trans hin)] at harray
      exact absurd harray h128
  next hin =>
    split
    next hout =>
      obtain ⟨reply, hreply, hzero⟩ := h.fresh hout
      rw [replyTo_outside _ len hout] at hreply hzero
      have hmap := text_inj (Option.some.inj (hreply.trans hzero.symm))
      intro i hi
      exact List.map_inj_left.mp hmap i (List.mem_range.mpr hi)
    next hout =>
      rwa [if_neg (requestAddress_ge_iff.not.mpr hout)] at harray

/-- A read is right exactly when it asks for 128 bytes of the memory, or lies outside with an array
of zeros, or runs over the end with a length that the array holds. -/
theorem readsMemory_iff (d : Debug T) (addr len : ℕ) : ReadsMemory d addr len ↔
    if addr + len ≤ Memory.SIZE then len = 128
    else if Memory.SIZE ≤ addr then ∀ i < 128, d.pyldArray i = 0
    else (requestLength len).toNat ≤ 128 := by
  refine ⟨of_readsMemory, fun h => ?_⟩
  have hiobuf (reply : List Char) (iobuf : Iobuf)
      (hr : d.replyTo (memoryRequest addr len) = some reply) :
      ∃ r, sendPacket iobuf reply = .ok r :=
    sendPacket_fits iobuf (by rw [length_reply hr]; decide)
  split at h
  next hin =>
    subst h
    have hlt : addr < Memory.SIZE := by omega
    refine ⟨?_, hiobuf, fun _ _ => ?_, fun _ h => absurd h (by decide),
      fun hout => absurd hout (by omega)⟩
    · rw [copyLength, if_neg (requestAddress_ge_iff.not.mpr (not_le.mpr hlt))]
      exact (toNat_requestLength (by decide)).le
    · rw [d.replyTo_inside hin hlt le_rfl, memoryBytes]
      refine congrArg (fun l => some (text l)) (List.map_congr_left fun i hi => ?_)
      exact if_pos (List.mem_range.mp hi)
  next hin =>
    split at h
    next hout =>
      refine ⟨?_, hiobuf, fun h => absurd h hin, fun h => absurd h hin, fun _ => ?_⟩
      · rw [copyLength, if_pos (requestAddress_ge_iff.mpr hout)]
        exact Nat.zero_le _
      · refine ⟨_, replyTo_outside d len hout, (replyTo_outside _ len hout).trans ?_⟩
        refine congrArg (fun l => some (text l)) (List.map_congr_left fun i hi => ?_)
        exact (h i (List.mem_range.mp hi)).symm
    next hout =>
      refine ⟨?_, hiobuf, fun h => absurd h hin, fun h => absurd h hin, fun h => absurd h hout⟩
      rw [copyLength, if_neg (requestAddress_ge_iff.not.mpr hout)]
      exact h

/-- Four bytes, 129 bytes, and a byte behind the memory after a request that left ones. -/
theorem not_readsMemory_four :
    ¬ReadsMemory ⟨start .RV32 [], Iobuf.zero, fun _ => 0, ∅⟩ 0 4 ∧
    ¬ReadsMemory ⟨start .RV32 [], Iobuf.zero, fun _ => 0, ∅⟩ 0 129 ∧
    ¬ReadsMemory ⟨start .RV32 [], Iobuf.zero, fun _ => 1, ∅⟩ Memory.SIZE 1 := by
  refine ⟨fun h => ?_, fun h => ?_, fun h => ?_⟩
  · exact absurd (of_readsMemory h) (by decide)
  · exact absurd (of_readsMemory h) (by decide)
  · exact absurd (of_readsMemory h) (by decide)

end RiscvTlm.Debug
