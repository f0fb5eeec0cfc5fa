import RiscvTlm.HexLoading

/-!
# Corrupt lines

Lines of a hex file that are no complete record: too short for their byte count, with a character
that is no digit, or with a wrong checksum. `readHexFile` never looks at the checksum and stores a
byte before it reads the next, so that such a line has no effect only when nothing in it can be
used.
-/

namespace RiscvTlm.Memory

open CString IntelHex

variable {st : HexLoad} {line : List Char} {address : BitVec 32} {mem : ℕ → BitVec 8} {n : ℕ}
  {e : HexError}

/-- The line stores no byte, before an exception either, and changes no variable. -/
structure NoEffect (st : HexLoad) (line : List Char) : Prop where
  bytes : lineType line = .ok .data → ∀ byteCount address, hexField line 1 2 = .ok byteCount →
    hexField line 3 4 = .ok address → ∀ n ≤ byteCount.toNat, ∀ mem mem',
      storeBytes line (BitVec.ofInt 32 address + st.base) mem n = .ok mem' → mem' = mem
  inBounds : ∀ index, readLine st line ≠ .error (.outOfBounds index)
  state : ∀ st', readLine st line = .ok st' → st' = st

/-- The run ends with an exception. -/
def Refused {α : Type} (x : Except HexError α) : Prop :=
  ∃ e, x = .error e ∧ ∀ index, e ≠ .outOfBounds index

/-- The text without the lines that are no complete records. -/
def completeLines (text : List (List Char)) : List (List Char) :=
  text.filter fun line => (frame line).isSome

/-- The corrupt lines of a file have no effect where they are read, and the file is loaded as one
without them or ends with an exception. -/
structure CorruptIgnored (m : Memory) (programCounter : BitVec 32) (text : List Char) : Prop where
  noEffect : ∀ pre line post st, lines text = pre ++ line :: post → frame line = none →
    readLines ⟨m.mem, programCounter, 0, 0⟩ pre = .ok st → NoEffect st line
  asAbsent : ∀ text', lines text' = completeLines (lines text) →
    m.readHexFile programCounter (some text) = m.readHexFile programCounter (some text') ∨
      Refused (m.readHexFile programCounter (some text))

/-- Nothing in the line can be used: it has no type that is read, a field before the first byte has
no number, there is no byte, or what the line sets is as it says already. -/
def Unusable (st : HexLoad) (line : List Char) : Prop :=
  match lineType line with
  | .error _ | .ok .other => True
  | .ok .data => ∀ byteCount, hexField line 1 2 = .ok byteCount → 0 < byteCount →
      HasField line 3 4 → ¬HasField line 9 2
  | .ok .segment => ∀ v, hexField line 9 4 = .ok v → BitVec.ofInt 32 (v * 16) = st.extendedAddress
  | .ok .startSegment => ∀ v, hexField line 9 4 = .ok v → ∀ pc, hexField line 13 4 = .ok pc →
      BitVec.ofInt 32 pc + BitVec.ofInt 32 (v * 16) = st.programCounter
  | .ok .offset => ∀ v, hexField line 9 4 = .ok v →
      BitVec.ofInt 32 (v * 2 ^ 16) = st.memoryOffset ∧ st.extendedAddress = 0
  | .ok .start => ∀ pc, hexField line 9 8 = .ok pc → BitVec.ofInt 32 pc = st.programCounter

/-! ## One line -/

/-- No turn of the loop ends when the first byte cannot be read. -/
theorem storeBytes_error (h : hexField line 9 2 = .error e) (n : ℕ) :
    storeBytes line address mem (n + 1) = .error e := by
  induction n with
  | zero =>
    show storeByte line address mem 0 = _
    rw [storeByte, h]
    rfl
  | succ n ih =>
    rw [storeBytes, ih]
    rfl

/-- The first byte that can be read is stored. -/
theorem storeBytes_one {v : ℤ} (mem : ℕ → BitVec 8) (h : hexField line 9 2 = .ok v)
    (hlt : recordIndex address 0 < SIZE) :
    storeBytes line address mem 1 =
      .ok fun a => if a = recordIndex address 0 then BitVec.ofInt 8 v else mem a := by
  show storeByte line address mem 0 = _
  rw [storeByte, h]
  exact if_pos hlt

theorem fits_of_inBounds (h : ∀ index, readLine st line ≠ .error (.outOfBounds index)) :
    Fits st.base line := by
  have hout := readLine_outcome st line
  cases hr : readLine st line with
  | ok st' =>
    rw [hr] at hout
    exact hout.1
  | error e =>
    rw [hr] at hout h
    cases e with
    | outOfBounds index => exact absurd rfl (h index)
    | _ => exact hout.1

/-- A byte stored over another one. -/
theorem not_unread (h : NoEffect st line) (ht : lineType line = .ok .data) {byteCount a v : ℤ}
    (hcount : hexField line 1 2 = .ok byteCount) (hpos : 0 < byteCount)
    (ha : hexField line 3 4 = .ok a) : hexField line 9 2 ≠ .ok v := by
  intro hv
  have hfit := fits_of_inBounds h.inBounds ht _ _ hcount ha 0 (by omega) fun j hj => by
    obtain rfl : j = 0 := by omega
    exact ⟨v, hv⟩
  have hone := storeBytes_one (fun _ => ~~~BitVec.ofInt 8 v) hv hfit
  have hmem := congrFun (h.bytes ht _ _ hcount ha 1 (by omega) _ _ hone)
    (recordIndex (BitVec.ofInt 32 a + st.base) 0)
  rw [if_pos rfl] at hmem
  have hbit := congrArg (fun x => x.getLsbD 0) hmem
  simp at hbit

/-- A record of another type stores nothing. -/
theorem noEffect_iff_of_ne_data (ht : lineType line ≠ .ok .data) :
    NoEffect st line ↔ ∀ st', readLine st line = .ok st' → st' = st := by
  refine ⟨fun h => h.state, fun h => ⟨fun hd => absurd hd ht, fun index hi => ?_, h⟩⟩
  have hout := readLine_outcome st line
  rw [hi] at hout
  exact hout fun hd => absurd hd ht

theorem forall_bind_ok {α β : Type} {x : Except HexError α} {f : α → Except HexError β}
    {P : β → Prop} :
    (∀ b, (x >>= f) = .ok b → P b) ↔ ∀ a, x = .ok a → ∀ b, f a = .ok b → P b := by
  cases x with
  | error e => exact iff_of_true nofun nofun
  | ok a =>
    constructor
    · rintro h _ ⟨⟩
      exact h
    · intro h
      exact h a rfl

section Unread

variable (h : ∀ byteCount, hexField line 1 2 = .ok byteCount → 0 < byteCount →
  HasField line 3 4 → ¬HasField line 9 2)

include h

/-- The loop has no turn, or its first one throws. -/
theorem storeBytes_of_unread {byteCount a : ℤ} (hcount : hexField line 1 2 = .ok byteCount)
    (ha : hexField line 3 4 = .ok a) (hn : n ≤ byteCount.toNat) :
    storeBytes line address mem n = .ok mem ∨ Refused (storeBytes line address mem n) := by
  cases n with
  | zero => exact .inl rfl
  | succ n =>
    have hno := h _ hcount (by omega) ⟨a, ha⟩
    cases hv : hexField line 9 2 with
    | ok v => exact absurd ⟨v, hv⟩ hno
    | error e => exact .inr ⟨e, storeBytes_error hv n, hexField_error hv⟩

theorem readLine_of_unread (st : HexLoad) (ht : lineType line = .ok .data) :
    readLine st line = .ok st ∨ Refused (readLine st line) := by
  unfold readLine
  rw [ht]
  show (hexField line 1 2 >>= _) = _ ∨ Refused (hexField line 1 2 >>= _)
  cases hcount : hexField line 1 2 with
  | error e => exact .inr ⟨e, rfl, hexField_error hcount⟩
  | ok byteCount =>
    show (hexField line 3 4 >>= _) = _ ∨ Refused (hexField line 3 4 >>= _)
    cases ha : hexField line 3 4 with
    | error e => exact .inr ⟨e, rfl, hexField_error ha⟩
    | ok a =>
      show (storeBytes line _ _ _ >>= _) = _ ∨ Refused (storeBytes line _ _ _ >>= _)
      rcases storeBytes_of_unread h hcount ha le_rfl with hs | ⟨e, hs, he⟩
      · rw [hs]
        exact .inl rfl
      · rw [hs]
        exact .inr ⟨e, rfl, he⟩

end Unread

theorem noEffect_iff_of_data (ht : lineType line = .ok .data) :
    NoEffect st line ↔ ∀ byteCount, hexField line 1 2 = .ok byteCount → 0 < byteCount →
      HasField line 3 4 → ¬HasField line 9 2 := by
  constructor
  · rintro h byteCount hcount hpos ⟨a, ha⟩ ⟨v, hv⟩
    exact not_unread h ht hcount hpos ha hv
  · intro h
    have hline := readLine_of_unread h st ht
    refine ⟨fun _ byteCount a hcount ha n hn mem mem' hs => ?_, fun index hi => ?_,
      fun st' hs => ?_⟩
    · rcases storeBytes_of_unread h hcount ha hn with hs' | ⟨e, hs', -⟩
      · cases hs.symm.trans hs'
        rfl
      · cases hs.symm.trans hs'
    · rcases hline with hl | ⟨e, hl, he⟩
      · cases hi.symm.trans hl
      · cases hi.symm.trans hl
        exact he index rfl
    · rcases hline with hl | ⟨e, hl, -⟩
      · cases hs.symm.trans hl
        rfl
      · cases hs.symm.trans hl

/-- A field that is only assigned leaves the state as it is when it says what is there. -/
theorem forall_field_iff {x : Except HexError ℤ} {g : ℤ → HexLoad} {P : ℤ → Prop}
    (h : ∀ v, g v = st ↔ P v) :
    (∀ st', (x >>= fun v => .ok (g v)) = .ok st' → st' = st) ↔ ∀ v, x = .ok v → P v := by
  refine forall_bind_ok.trans (forall₂_congr fun v _ => ?_)
  rw [← h v]
  constructor
  · intro hg
    exact hg _ rfl
  · rintro hg _ ⟨⟩
    exact hg

theorem noEffect_iff : NoEffect st line ↔ Unusable st line := by
  obtain ⟨mem, pc, ext, off⟩ := st
  unfold Unusable
  by_cases hd : lineType line = .ok .data
  · rw [hd]
    exact noEffect_iff_of_data hd
  rw [noEffect_iff_of_ne_data hd, readLine]
  cases ht : lineType line with
  | error e =>
    refine iff_of_true ?_ trivial
    rintro _ ⟨⟩
  | ok type =>
    cases type with
    | data => exact absurd ht hd
    | other =>
      refine iff_of_true ?_ trivial
      rintro _ ⟨⟩
      rfl
    | segment =>
      refine forall_field_iff fun v => ⟨congrArg HexLoad.extendedAddress, ?_⟩
      rintro rfl
      rfl
    | startSegment =>
      show (∀ st', (hexField line 9 4 >>= _) = .ok st' → _) ↔ _
      refine forall_bind_ok.trans (forall₂_congr fun v _ => ?_)
      refine forall_field_iff fun pc' => ⟨congrArg HexLoad.programCounter, ?_⟩
      rintro rfl
      rfl
    | offset =>
      refine forall_field_iff fun v => ⟨fun h => ?_, ?_⟩
      · exact ⟨congrArg HexLoad.memoryOffset h, (congrArg HexLoad.extendedAddress h).symm⟩
      · rintro ⟨rfl, rfl⟩
        rfl
    | start =>
      refine forall_field_iff fun v => ⟨congrArg HexLoad.programCounter, ?_⟩
      rintro rfl
      rfl

/-! ## Files -/

/-- With no effect of its corrupt lines a file is loaded as its complete ones, unless the run ends
with an exception. -/
theorem readLines_completeLines {text : List (List Char)} {st : HexLoad}
    (h : ∀ pre line post st', text = pre ++ line :: post → frame line = none →
      readLines st pre = .ok st' → NoEffect st' line) :
    readLines st text = readLines st (completeLines text) ∨ Refused (readLines st text) := by
  induction text generalizing st with
  | nil => exact .inl rfl
  | cons line text ih =>
    have hrest {st' : HexLoad} (hst : readLine st line = .ok st') :
        readLines st' text = readLines st' (completeLines text) ∨ Refused (readLines st' text) := by
      refine ih fun pre l post st'' ht hl hpre => ?_
      refine h (line :: pre) l post st'' (congrArg (line :: ·) ht) hl ?_
      rw [readLines, hst]
      exact hpre
    cases hf : frame line with
    | some f =>
      have hc : completeLines (line :: text) = line :: completeLines text :=
        List.filter_cons_of_pos (by rw [hf]; rfl)
      rw [hc, readLines, readLines]
      cases hst : readLine st line with
      | error e => exact .inl rfl
      | ok st' => exact hrest hst
    | none =>
      have hc : completeLines (line :: text) = completeLines text :=
        List.filter_cons_of_neg (by rw [hf]; exact Bool.false_ne_true)
      have hno := h [] line text st rfl hf rfl
      rw [hc, readLines]
      cases hst : readLine st line with
      | error e =>
        refine .inr ⟨e, rfl, fun index he => hno.inBounds index ?_⟩
        rw [hst, he]
      | ok st' =>
        cases hno.state st' hst
        exact hrest hst

/-- The corrupt lines of a file are ignored exactly when nothing in those that are reached can be
used. -/
theorem corruptIgnored_iff (m : Memory) (programCounter : BitVec 32) (text : List Char) :
    CorruptIgnored m programCounter text ↔
      ∀ pre line post st, lines text = pre ++ line :: post → frame line = none →
        readLines ⟨m.mem, programCounter, 0, 0⟩ pre = .ok st → Unusable st line := by
  constructor
  · intro h pre line post st ht hl hpre
    exact noEffect_iff.mp (h.noEffect pre line post st ht hl hpre)
  · intro h
    have hno (pre line post st) (ht : lines text = pre ++ line :: post) (hl : frame line = none)
        (hpre : readLines ⟨m.mem, programCounter, 0, 0⟩ pre = .ok st) : NoEffect st line :=
      noEffect_iff.mpr (h pre line post st ht hl hpre)
    refine ⟨hno, fun text' ht => ?_⟩
    rw [readHexFile, readHexFile, ht]
    rcases readLines_completeLines hno with he | ⟨e, he, hthrown⟩
    · exact .inl (by rw [he])
    · refine .inr ⟨e, ?_, hthrown⟩
      rw [he]
      rfl

/-- A record of one byte with a wrong checksum. -/
theorem not_corruptIgnored_checksum :
    frame ":0100000055AB".toList = none ∧
    ¬CorruptIgnored ⟨fun _ => 0, false⟩ 0 ":0100000055AB".toList := by
  refine ⟨rfl, fun h => ?_⟩
  have hno := h.noEffect [] _ [] _ rfl rfl rfl
  exact noEffect_iff.mp hno 1 rfl (by decide) ⟨0, rfl⟩ ⟨0x55, rfl⟩

end RiscvTlm.Memory
