import RiscvTlm.HexFile

/-!
# The bounds of the memory array

When the three ways into the memory stay within the array. A transaction is refused by its first
address alone, so that an access of the last bytes may run over the end; a debug transaction is
clipped in the number it returns but not in what it copies; a hex file stores wherever its records
say. Each is safe exactly when no access or record it accepts crosses the end.
-/

namespace RiscvTlm.Memory

open CString

variable {m : Memory} {st st' : HexLoad} {line : List Char} {address base : BitVec 32}
  {b : BitVec 32 × BitVec 32} {mem : ℕ → BitVec 8} {n i pos count : ℕ} {e : HexError}

/-! ## Transactions -/

/-- A transaction that `b_transport` does not refuse. -/
structure Accepts (trans : Payload) : Prop where
  address : trans.address.toNat < SIZE
  byteEnable : trans.byteEnable = false
  dataLength : trans.dataLength ≤ 4
  streamingWidth : trans.dataLength ≤ trans.streamingWidth

/-- No index is out of range, and an access over the end is refused. -/
def BusInBounds (m : Memory) (trans : Payload) : Prop :=
  ∃ r, m.bTransport trans = .ok r ∧
    (trans.command ≠ .ignore → SIZE < trans.address.toNat + trans.dataLength →
      r.2.isResponseError = true)

/-- No index is out of range, as many bytes are copied as returned, and all of them lie in the
array. -/
def DebugInBounds (m : Memory) (trans : DebugPayload) : Prop :=
  ∃ r, m.transportDbg trans = .ok r ∧ r.copied = r.numBytes ∧
    ∀ i < r.copied, trans.address.toNat + i < SIZE

/-- A guarded result that has a property whenever it is reached. -/
theorem exists_ite_ok_iff {ε α : Type*} {c : Prop} [Decidable c] {e : ε} {a : α} {Q : α → Prop}
    (h : c → Q a) : (∃ b, (if c then Except.ok a else .error e) = .ok b ∧ Q b) ↔ c := by
  constructor
  · rintro ⟨b, hb, -⟩
    by_contra hc
    rw [if_neg hc] at hb
    cases hb
  · intro hc
    exact ⟨a, if_pos hc, h hc⟩

theorem busInBounds_iff (m : Memory) (trans : Payload) :
    BusInBounds m trans ↔ (Accepts trans → trans.command ≠ .ignore →
      trans.address.toNat + trans.dataLength ≤ SIZE) := by
  unfold BusInBounds
  rw [bTransport]
  split
  next h =>
    refine iff_of_true ⟨_, rfl, fun _ _ => rfl⟩ fun ha => ?_
    exact absurd ha.address (by omega)
  split
  next h =>
    refine iff_of_true ⟨_, rfl, fun _ _ => rfl⟩ fun ha => ?_
    exact absurd (ha.byteEnable.symm.trans h) Bool.false_ne_true
  split
  next h =>
    refine iff_of_true ⟨_, rfl, fun _ _ => rfl⟩ fun ha => ?_
    rcases h with h | h
    · exact absurd ha.dataLength (by omega)
    · exact absurd ha.streamingWidth (by omega)
  next ha hb hl =>
    have hacc : Accepts trans :=
      ⟨by omega, Bool.eq_false_iff.mpr hb, by omega, by omega⟩
    have hend (r : Memory × Payload) :
        (∃ r', (if trans.address.toNat + trans.dataLength ≤ SIZE then Except.ok r
            else .error Fault.undefinedBehaviour) = .ok r' ∧
          (trans.command ≠ .ignore → SIZE < trans.address.toNat + trans.dataLength →
            r'.2.isResponseError = true)) ↔
        trans.address.toNat + trans.dataLength ≤ SIZE :=
      exists_ite_ok_iff fun hc _ h => absurd hc (by omega)
    cases hcmd : trans.command with
    | ignore => exact iff_of_true ⟨_, rfl, fun h => absurd rfl h⟩ fun _ h => absurd rfl h
    | read =>
      rw [hcmd] at hend
      exact (hend _).trans ⟨fun h _ _ => h, fun h => h hacc (by decide)⟩
    | write =>
      rw [hcmd] at hend
      exact (hend _).trans ⟨fun h _ _ => h, fun h => h hacc (by decide)⟩

theorem debugInBounds_iff (m : Memory) (trans : DebugPayload) :
    DebugInBounds m trans ↔
      SIZE ≤ trans.address.toNat ∨
        if trans.command = .ignore then trans.dataLength = 0
        else trans.address.toNat + trans.dataLength ≤ SIZE := by
  unfold DebugInBounds
  rw [transportDbg]
  split
  next h => exact iff_of_true ⟨_, rfl, rfl, nofun⟩ (.inl h)
  next ha =>
    rw [or_iff_right ha]
    have hend (r : DebugTransport) (hn : r.copied = trans.dataLength)
        (hr : r.numBytes = if trans.dataLength < (SIZE - trans.address.toNat) * 4 then
          trans.dataLength else (SIZE - trans.address.toNat) * 4) :
        (∃ r', (if trans.address.toNat + trans.dataLength ≤ SIZE then Except.ok r
            else .error Fault.undefinedBehaviour) = .ok r' ∧ r'.copied = r'.numBytes ∧
          ∀ i < r'.copied, trans.address.toNat + i < SIZE) ↔
        trans.address.toNat + trans.dataLength ≤ SIZE := by
      refine exists_ite_ok_iff fun hc => ⟨?_, fun i hi => by omega⟩
      rw [hn, hr, if_pos (by omega)]
    cases hcmd : trans.command with
    | ignore =>
      rw [if_pos rfl]
      constructor
      · rintro ⟨r, h, hn, -⟩
        cases h
        dsimp only at hn
        split at hn <;> omega
      · intro h0
        refine ⟨_, rfl, ?_, nofun⟩
        rw [h0, if_pos (by omega)]
    | read => exact hend _ rfl rfl
    | write => exact hend _ rfl rfl

/-! ## Hex files -/

/-- No index is out of range; a record that is not loaded ends the run with an exception. -/
def HexInBounds (m : Memory) (programCounter : BitVec 32) (file : Option (List Char)) : Prop :=
  ∀ index, m.readHexFile programCounter file ≠ .error (.outOfBounds index)

/-- The field holds a number. -/
def HasField (line : List Char) (pos count : ℕ) : Prop := ∃ v, hexField line pos count = .ok v

/-- The bytes below `n` that come before an unreadable one have an index in the array. -/
def BytesFit (line : List Char) (address : BitVec 32) (n : ℕ) : Prop :=
  ∀ i < n, (∀ j ≤ i, HasField line (9 + j * 2) 2) → recordIndex address i < SIZE

def BytesRead (line : List Char) (n : ℕ) : Prop := ∀ i < n, HasField line (9 + i * 2) 2

/-- If the line is a data record, then its bytes fit. -/
def Fits (base : BitVec 32) (line : List Char) : Prop :=
  lineType line = .ok .data → ∀ byteCount address, hexField line 1 2 = .ok byteCount →
    hexField line 3 4 = .ok address →
    BytesFit line (BitVec.ofInt 32 address + base) byteCount.toNat

/-- Every field that is read of the line holds a number. -/
def Readable (line : List Char) : Prop :=
  match lineType line with
  | .error _ => False
  | .ok .data => (∃ byteCount, hexField line 1 2 = .ok byteCount ∧
      BytesRead line byteCount.toNat) ∧ HasField line 3 4
  | .ok .segment | .ok .offset => HasField line 9 4
  | .ok .startSegment => HasField line 9 4 ∧ HasField line 13 4
  | .ok .start => HasField line 9 8
  | .ok .other => True

/-- The segment and the offset after a line, from those before it. -/
def segments (b : BitVec 32 × BitVec 32) (line : List Char) : BitVec 32 × BitVec 32 :=
  match lineType line, hexField line 9 4 with
  | .ok .segment, .ok v => (BitVec.ofInt 32 (v * 16), b.2)
  | .ok .offset, .ok v => (0, BitVec.ofInt 32 (v * 2 ^ 16))
  | _, _ => b

/-- Each data record fits, at the address that the lines before it give, as long as these can be
read. -/
def AllFit (b : BitVec 32 × BitVec 32) (text : List (List Char)) : Prop :=
  ∀ pre line post, text = pre ++ line :: post → (∀ l ∈ pre, Readable l) →
    Fits ((pre.foldl segments b).1 + (pre.foldl segments b).2) line

theorem allFit_cons {text : List (List Char)} :
    AllFit b (line :: text) ↔ Fits (b.1 + b.2) line ∧
      (Readable line → AllFit (segments b line) text) := by
  constructor
  · intro h
    refine ⟨h [] line text rfl nofun, fun hr pre l post ht hpre => ?_⟩
    refine h (line :: pre) l post (by rw [ht]; rfl) fun l' hl' => ?_
    rcases List.mem_cons.mp hl' with rfl | hl'
    · exact hr
    · exact hpre l' hl'
  · rintro ⟨h, hrest⟩ pre l post ht hpre
    cases pre with
    | nil =>
      obtain ⟨rfl, -⟩ := List.cons.inj ht
      exact h
    | cons l' pre =>
      obtain ⟨rfl, rfl⟩ := List.cons.inj ht
      exact hrest (hpre _ List.mem_cons_self) pre l post rfl fun x hx =>
        hpre x (List.mem_cons_of_mem _ hx)

/-! ### What a read returns -/

/-- A result that is good only if all fits and can be read, and out of range only if it does not
fit. -/
def Outcome {α : Type} (fits readable : Prop) (done : α → Prop) : Except HexError α → Prop
  | .ok a => fits ∧ readable ∧ done a
  | .error (.outOfBounds _) => ¬fits
  | .error _ => fits ∧ ¬readable

theorem outcome_error {α : Type} {fits readable : Prop} {done : α → Prop}
    (he : ∀ index, e ≠ .outOfBounds index) (hf : fits) (hr : ¬readable) :
    Outcome fits readable done (.error e) := by
  cases e with
  | outOfBounds index => exact absurd rfl (he index)
  | _ => exact ⟨hf, hr⟩

theorem hexField_error (h : hexField line pos count = .error e) (index : ℕ) :
    e ≠ .outOfBounds index := by
  rintro rfl
  unfold hexField at h
  split at h
  · cases h
  · split at h <;> cases h

theorem not_hasField (h : hexField line pos count = .error e) : ¬HasField line pos count := by
  rintro ⟨v, hv⟩
  cases hv.symm.trans h

theorem bytesRead_succ {n : ℕ} :
    BytesRead line (n + 1) ↔ BytesRead line n ∧ HasField line (9 + n * 2) 2 :=
  Nat.forall_lt_succ_right

theorem bytesFit_succ {address : BitVec 32} {n : ℕ} :
    BytesFit line address (n + 1) ↔ BytesFit line address n ∧
      (BytesRead line (n + 1) → recordIndex address n < SIZE) := by
  have hread : (∀ j ≤ n, HasField line (9 + j * 2) 2) ↔ BytesRead line (n + 1) :=
    forall_congr' fun _ => imp_congr_left Nat.lt_succ_iff.symm
  rw [← hread]
  exact Nat.forall_lt_succ_right

theorem storeBytes_outcome (line : List Char) (address : BitVec 32) (mem : ℕ → BitVec 8) (n : ℕ) :
    Outcome (BytesFit line address n) (BytesRead line n) (fun _ => True)
      (storeBytes line address mem n) := by
  induction n with
  | zero => exact ⟨nofun, nofun, trivial⟩
  | succ n ih =>
    rw [bytesFit_succ, bytesRead_succ]
    unfold storeBytes
    cases hs : storeBytes line address mem n with
    | error e =>
      rw [hs] at ih
      cases e with
      | outOfBounds index => exact fun h => ih h.1
      | _ => exact ⟨⟨ih.1, fun h => absurd h.1 ih.2⟩, fun h => ih.2 h.1⟩
    | ok mem' =>
      rw [hs] at ih
      obtain ⟨hfit, hread, -⟩ := ih
      show Outcome _ _ _ (storeByte line address mem' n)
      unfold storeByte
      cases hv : hexField line (9 + n * 2) 2 with
      | error e =>
        have hno := not_hasField hv
        exact outcome_error (hexField_error hv) ⟨hfit, fun h => absurd h.2 hno⟩ fun h => hno h.2
      | ok v =>
        show Outcome _ _ _ (if recordIndex address n < SIZE then _ else _)
        by_cases hi : recordIndex address n < SIZE
        · rw [if_pos hi]
          exact ⟨⟨hfit, fun _ => hi⟩, ⟨hread, v, hv⟩, trivial⟩
        · rw [if_neg hi]
          exact fun h => hi (h.2 ⟨hread, v, hv⟩)

/-- A field read before the rest of the line. -/
theorem outcome_field {α : Type} {fits readable : Prop} {done : α → Prop}
    {k : ℤ → Except HexError α} (hfits : (∀ v, hexField line pos count ≠ .ok v) → fits)
    (hread : readable → HasField line pos count)
    (h : ∀ v, hexField line pos count = .ok v → Outcome fits readable done (k v)) :
    Outcome fits readable done (hexField line pos count >>= k) := by
  cases hv : hexField line pos count with
  | error e =>
    refine outcome_error (hexField_error hv) (hfits fun v h => ?_) fun hr =>
      not_hasField hv (hread hr)
    cases hv.symm.trans h
  | ok v => exact h v hv

theorem lineType_error (h : lineType line = .error e) (index : ℕ) : e ≠ .outOfBounds index := by
  rintro rfl
  unfold lineType at h
  split at h
  · split at h <;> cases h
  · cases h

theorem fits_iff_of_data {v a : ℤ} (ht : lineType line = .ok .data)
    (hv : hexField line 1 2 = .ok v) (ha : hexField line 3 4 = .ok a) :
    Fits base line ↔ BytesFit line (BitVec.ofInt 32 a + base) v.toNat := by
  constructor
  · intro h
    exact h ht v a hv ha
  · intro h _ v' a' hv' ha'
    cases hv.symm.trans hv'
    cases ha.symm.trans ha'
    exact h

theorem readable_iff_of_data {v a : ℤ} (ht : lineType line = .ok .data)
    (hv : hexField line 1 2 = .ok v) (ha : hexField line 3 4 = .ok a) :
    Readable line ↔ BytesRead line v.toNat := by
  unfold Readable
  rw [ht]
  constructor
  · rintro ⟨⟨v', hv', h⟩, -⟩
    cases hv.symm.trans hv'
    exact h
  · intro h
    exact ⟨⟨v, hv, h⟩, a, ha⟩

theorem segments_of_data (ht : lineType line = .ok .data) : segments b line = b := by
  unfold segments
  rw [ht]

theorem readLine_outcome_of_data (st : HexLoad) (ht : lineType line = .ok .data) :
    Outcome (Fits st.base line) (Readable line)
      (fun st' => (st'.extendedAddress, st'.memoryOffset) =
        (st.extendedAddress, st.memoryOffset)) (readLine st line) := by
  have hfields (h : Readable line) : HasField line 1 2 ∧ HasField line 3 4 := by
    unfold Readable at h
    rw [ht] at h
    obtain ⟨⟨v, hv, -⟩, ha⟩ := h
    exact ⟨⟨v, hv⟩, ha⟩
  unfold readLine
  rw [ht]
  refine outcome_field (fun h _ v _ hv => absurd hv (h v)) (fun h => (hfields h).1) fun v hv => ?_
  refine outcome_field (fun h _ _ a _ ha => absurd ha (h a)) (fun h => (hfields h).2) fun a ha => ?_
  have hb := storeBytes_outcome line (BitVec.ofInt 32 a + st.base) st.mem v.toNat
  rw [← fits_iff_of_data ht hv ha, ← readable_iff_of_data ht hv ha] at hb
  cases hs : storeBytes line (BitVec.ofInt 32 a + st.base) st.mem v.toNat with
  | error e =>
    rw [hs] at hb
    cases e <;> exact hb
  | ok mem =>
    rw [hs] at hb
    exact ⟨hb.1, hb.2.1, rfl⟩

theorem readLine_outcome (st : HexLoad) (line : List Char) :
    Outcome (Fits st.base line) (Readable line)
      (fun st' => (st'.extendedAddress, st'.memoryOffset) =
        segments (st.extendedAddress, st.memoryOffset) line) (readLine st line) := by
  cases ht : lineType line with
  | error e =>
    unfold readLine Readable
    rw [ht]
    exact outcome_error (lineType_error ht) (fun h => nomatch ht.symm.trans h) id
  | ok type =>
    have hfits (h : type ≠ .data) : Fits st.base line :=
      fun h' => absurd (Except.ok.inj (ht.symm.trans h')) h
    cases type with
    | data =>
      rw [segments_of_data ht]
      exact readLine_outcome_of_data st ht
    | segment =>
      unfold readLine Readable segments
      rw [ht]
      refine outcome_field (fun _ => hfits nofun) id fun v hv => ⟨hfits nofun, ⟨v, hv⟩, ?_⟩
      rw [hv]
    | startSegment =>
      unfold readLine Readable segments
      rw [ht]
      refine outcome_field (fun _ => hfits nofun) (fun h => h.1) fun v hv => ?_
      exact outcome_field (fun _ => hfits nofun) (fun h => h.2) fun pc hpc =>
        ⟨hfits nofun, ⟨⟨v, hv⟩, pc, hpc⟩, rfl⟩
    | offset =>
      unfold readLine Readable segments
      rw [ht]
      refine outcome_field (fun _ => hfits nofun) id fun v hv => ⟨hfits nofun, ⟨v, hv⟩, ?_⟩
      rw [hv]
    | start =>
      unfold readLine Readable segments
      rw [ht]
      exact outcome_field (fun _ => hfits nofun) id fun v hv => ⟨hfits nofun, ⟨v, hv⟩, rfl⟩
    | other =>
      unfold readLine Readable segments
      rw [ht]
      exact ⟨hfits nofun, trivial, rfl⟩

/-- The lines are loaded within the array exactly when each data record fits. -/
theorem readLines_outOfBounds_iff (text : List (List Char)) (st : HexLoad) :
    (∀ index, readLines st text ≠ .error (.outOfBounds index)) ↔
      AllFit (st.extendedAddress, st.memoryOffset) text := by
  induction text generalizing st with
  | nil =>
    refine iff_of_true nofun fun pre line post h => ?_
    exact absurd h (by simp)
  | cons line text ih =>
    have hl := readLine_outcome st line
    rw [allFit_cons]
    unfold readLines
    cases hr : readLine st line with
    | error e =>
      rw [hr] at hl
      show (∀ index, Except.error e ≠ _) ↔ _
      cases e with
      | outOfBounds index => exact iff_of_false (fun h => h index rfl) fun h => hl h.1
      | _ => exact iff_of_true nofun ⟨hl.1, fun h => absurd h hl.2⟩
    | ok st' =>
      rw [hr] at hl
      obtain ⟨hfit, hread, hseg⟩ := hl
      rw [← hseg]
      exact (ih st').trans ⟨fun h => ⟨hfit, fun _ => h⟩, fun h => h.2 hread⟩

theorem hexInBounds_iff (m : Memory) (programCounter : BitVec 32) (file : Option (List Char)) :
    HexInBounds m programCounter file ↔
      ∀ text, file = some text → AllFit (0, 0) (lines text) := by
  unfold HexInBounds
  cases file with
  | none => exact iff_of_true nofun nofun
  | some text =>
    have hall := readLines_outOfBounds_iff (lines text) ⟨m.mem, programCounter, 0, 0⟩
    have hread : (∀ index, m.readHexFile programCounter (some text) ≠
          .error (.outOfBounds index)) ↔
        ∀ index, readLines ⟨m.mem, programCounter, 0, 0⟩ (lines text) ≠
          .error (.outOfBounds index) := by
      show (∀ index, (readLines _ (lines text) >>= fun st => _) ≠ _) ↔ _
      cases readLines ⟨m.mem, programCounter, 0, 0⟩ (lines text) with
      | error e =>
        refine forall_congr' fun index => not_congr ?_
        constructor <;> exact fun h => congrArg Except.error (Except.error.inj h)
      | ok st => exact iff_of_true (fun _ h => nomatch h) nofun
    rw [hread, hall]
    constructor
    · rintro h _ ⟨⟩
      exact h
    · intro h
      exact h text rfl

/-- Every index is in range, as much is copied as returned and nothing crosses the end, exactly when
no transaction that is accepted, no debug transaction that starts in the array and no data record
that is read runs over the end, and no ignored debug transaction has a length. -/
theorem inBounds_iff (m : Memory) (programCounter : BitVec 32) :
    (∀ trans, BusInBounds m trans ↔
      (Accepts trans → trans.command ≠ .ignore →
        trans.address.toNat + trans.dataLength ≤ SIZE)) ∧
    (∀ trans, DebugInBounds m trans ↔
      SIZE ≤ trans.address.toNat ∨
        if trans.command = .ignore then trans.dataLength = 0
        else trans.address.toNat + trans.dataLength ≤ SIZE) ∧
    ∀ file, HexInBounds m programCounter file ↔
      ∀ text, file = some text → AllFit (0, 0) (lines text) :=
  ⟨busInBounds_iff m, debugInBounds_iff m, hexInBounds_iff m programCounter⟩

/-- Four bytes from the last one on, over the bus and by the debugger, and a record for the first
address past the end. -/
theorem not_inBounds_last :
    ¬BusInBounds ⟨fun _ => 0, true⟩ ⟨.read, 0xFFFFFF, 0, 4, 4, false, false, .incomplete⟩ ∧
    ¬DebugInBounds ⟨fun _ => 0, true⟩ ⟨.read, 0xFFFFFF, fun _ => 0, 4, .incomplete⟩ ∧
    ¬HexInBounds ⟨fun _ => 0, false⟩ 0
      (some ":020000040100F9\n:0100000055AA\n".toList) := by
  refine ⟨fun h => ?_, fun h => ?_, fun h => ?_⟩
  · exact absurd ((busInBounds_iff _ _).mp h ⟨by decide, rfl, by decide, by decide⟩ nofun)
      (by decide)
  · exact absurd ((debugInBounds_iff _ _).mp h) (by decide)
  · exact h 0x1000000 (by rfl)

end RiscvTlm.Memory
