import RiscvTlm.DecoderGrammar

/-!
# The grammar of the compressed decoder

Which words the C extension performs without their low halfword being an instruction of its
instruction set: reserved encodings, operations and amounts of the other width, and floating-point
encodings that share a `case`. With the table of the base decoder this is the exact set of words
that the two decoders should reject.
-/

namespace RiscvTlm

open Isa BitField

variable {T : CpuType} {w : BitVec 32}

/-! ## Performed words -/

/-- The operations for which the switch has a function. -/
def OpCCodes.performed : OpCCodes → Bool
  | .OP_C_FLD | .OP_C_FLW | .OP_C_FSD | .OP_C_NOP | .OP_C_LUI | .OP_C_FLDSP | .OP_C_FSDSP
  | .OP_C_FSWSP | .OP_C_FLWSP | .OP_C_ERROR => false
  | _ => true

/-- The C extension performs the operation of the word: `C.ADDI4SPN` raises an illegal instruction
when its immediate is zero. -/
def Performs (T : CpuType) (w : BitVec 32) : Prop :=
  (CExtension.decode w T).performed = true ∧
    ¬(CExtension.decode w T = .OP_C_ADDI4SPN ∧ CExtension.getImmADDI4SPN w = 0)

/-- An operation without a function stops the simulation or does nothing. -/
theorem execInstruction_not_performed {code : OpCCodes} (h : code.performed = false) :
    (CExtension.execInstruction w code : Sim T (Bool × Bool)) = pcNext NOP ∨
      (CExtension.execInstruction w code : Sim T (Bool × Bool)) = pure (true, false) := by
  cases code <;> first | exact .inl rfl | exact .inr rfl | cases h

theorem execADDI4SPN_zero (h : CExtension.getImmADDI4SPN w = 0) :
    (CExtension.execADDI4SPN w : Sim T Bool) = do
      raiseException .ILLEGAL_INSTRUCTION w
      return false := by
  have hz : (0 : BitVec 32).setWidth T.xlen = 0 := BitVec.setWidth_zero _ _
  unfold CExtension.execADDI4SPN
  rw [h, hz]
  rfl

/-- A word that is not performed stops the simulation, does nothing or is an illegal instruction. -/
theorem execInstruction_of_not_performs (h : ¬Performs T w) :
    (CExtension.execInstruction w (CExtension.decode w T) : Sim T (Bool × Bool)) = pcNext NOP ∨
      (CExtension.execInstruction w (CExtension.decode w T) : Sim T (Bool × Bool)) =
        pure (true, false) ∨
      (CExtension.execInstruction w (CExtension.decode w T) : Sim T (Bool × Bool)) =
        pcForward do
          raiseException .ILLEGAL_INSTRUCTION w
          return false := by
  cases hp : (CExtension.decode w T).performed with
  | false => exact (execInstruction_not_performed hp).imp id .inl
  | true =>
    obtain ⟨hd, hi⟩ : CExtension.decode w T = .OP_C_ADDI4SPN ∧ CExtension.getImmADDI4SPN w = 0 := by
      by_contra hn
      exact h ⟨hp, hn⟩
    rw [hd]
    exact .inr (.inr (congrArg pcForward (execADDI4SPN_zero hi)))

/-! ## The grammar and the holes -/

/-- The low halfword is an instruction of the compressed instruction set. -/
def CompressedDefined (T : CpuType) (w : BitVec 32) : Prop :=
  ∃ c : CInstr, c.Defined T.xlen ∧ w.setWidth 16 = c.encode

namespace CExtension

open ExtensionBase (getRd)

/-- Bit 12: the top bit of an immediate or an amount, or a part of the function. -/
def funct1 (w : BitVec 32) : ℕ := (range w 12 12).toNat

/-- The function of the operations on short registers. -/
def funct2 (w : BitVec 32) : ℕ := (range w 11 10).toNat

/-- The function of the operations on two short registers. -/
def funct2' (w : BitVec 32) : ℕ := (range w 6 5).toNat

/-- The words of the narrow decoder with an amount of 32 or more, with `C.SUBW` or `C.ADDW`, or with
`C.FSW`. -/
def NarrowHole (w : BitVec 32) : Prop :=
  opcode w = 0 ∧ getFunct3 w = 7 ∨
  opcode w = 1 ∧ getFunct3 w = 4 ∧ funct2 w ∈ [0, 1, 3] ∧ funct1 w = 1 ∨
  opcode w = 2 ∧ getFunct3 w = 0 ∧ funct1 w = 1

/-- The words of the wide decoder with a reserved register `x0`. -/
def WideHole (w : BitVec 32) : Prop :=
  opcode w = 1 ∧ getFunct3 w = 1 ∧ getRd w = 0 ∨
  opcode w = 2 ∧ getFunct3 w = 3 ∧ getRd w = 0

/-- The words with a zero immediate, a reserved function or register, or `C.FLDSP`. -/
def SharedHole (w : BitVec 32) : Prop :=
  opcode w = 1 ∧ getFunct3 w = 3 ∧ funct1 w = 0 ∧ getRs2 w = 0 ∨
  opcode w = 1 ∧ getFunct3 w = 4 ∧ funct2 w = 3 ∧ funct1 w = 1 ∧ 2 ≤ funct2' w ∨
  opcode w = 2 ∧ getFunct3 w = 1 ∨
  opcode w = 2 ∧ getFunct3 w = 2 ∧ getRd w = 0 ∨
  opcode w = 2 ∧ getFunct3 w = 4 ∧ funct1 w = 0 ∧ getRs1 w = 0 ∧ getRs2 w = 0

end CExtension

open CExtension

/-- The words that the C extension performs and that are no compressed instructions. -/
def CompressedHole (T : CpuType) (w : BitVec 32) : Prop :=
  T = .RV32 ∧ NarrowHole w ∨ T = .RV64 ∧ WideHole w ∨ SharedHole w

/-! ## Fields as numbers -/

/-- A field of the low halfword. -/
theorem range_half {hi lo l : ℕ} (hl : hi - lo + 1 = l) (h64 : l ≤ 64) (h16 : hi < 16)
    (hlo : lo ≤ hi) : (range w hi lo).toNat = ((w.setWidth 16).extractLsb' lo l).toNat := by
  subst hl
  have hr : range w hi lo = BitField.range (w.setWidth 16) hi lo := range_of_setWidth_eq rfl h16 hlo
  rw [hr]
  exact BitVec.toNat_setWidth_of_le h64

theorem opcode_half : opcode w = ((w.setWidth 16).extractLsb' 0 2).toNat :=
  range_half rfl (by decide) (by decide) (by decide)

theorem funct3_half : getFunct3 w = ((w.setWidth 16).extractLsb' 13 3).toNat :=
  range_half rfl (by decide) (by decide) (by decide)

theorem funct1_half : funct1 w = ((w.setWidth 16).extractLsb' 12 1).toNat :=
  range_half rfl (by decide) (by decide) (by decide)

theorem funct2_half : funct2 w = ((w.setWidth 16).extractLsb' 10 2).toNat :=
  range_half rfl (by decide) (by decide) (by decide)

theorem funct2'_half : funct2' w = ((w.setWidth 16).extractLsb' 5 2).toNat :=
  range_half rfl (by decide) (by decide) (by decide)

theorem rd_half : ExtensionBase.getRd w = ((w.setWidth 16).extractLsb' 7 5).toNat :=
  range_half rfl (by decide) (by decide) (by decide)

theorem rs1_half : getRs1 w = ((w.setWidth 16).extractLsb' 7 5).toNat := rd_half

theorem rs2_half : getRs2 w = ((w.setWidth 16).extractLsb' 2 5).toNat :=
  range_half rfl (by decide) (by decide) (by decide)

theorem quadrant_field {q : BitVec 2} (h : opcode w = q.toNat) :
    (w.setWidth 16).extractLsb' 0 2 = q :=
  BitVec.eq_of_toNat_eq (opcode_half.symm.trans h)

theorem funct3_field_half {f3 : BitVec 3} (h : getFunct3 w = f3.toNat) :
    (w.setWidth 16).extractLsb' 13 3 = f3 :=
  BitVec.eq_of_toNat_eq (funct3_half.symm.trans h)

theorem funct1_field {f1 : BitVec 1} (h : funct1 w = f1.toNat) :
    (w.setWidth 16).extractLsb' 12 1 = f1 :=
  BitVec.eq_of_toNat_eq (funct1_half.symm.trans h)

theorem funct2_field {f2 : BitVec 2} (h : funct2 w = f2.toNat) :
    (w.setWidth 16).extractLsb' 10 2 = f2 :=
  BitVec.eq_of_toNat_eq (funct2_half.symm.trans h)

theorem funct2'_field {f2 : BitVec 2} (h : funct2' w = f2.toNat) :
    (w.setWidth 16).extractLsb' 5 2 = f2 :=
  BitVec.eq_of_toNat_eq (funct2'_half.symm.trans h)

theorem funct1_lt (w : BitVec 32) : funct1 w < 2 := by
  rw [funct1_half]
  exact BitVec.isLt _

/-! ## Holes are performed -/

/-- Every operation on two short registers has a function. -/
theorem performed_op (ho : opcode w = 1) (h3 : getFunct3 w = 4) :
    (decode w T).performed = true := by
  have h2 : (range w 11 10).toNat < 4 := by
    rw [toNat_range _ (by decide)]
    omega
  have h2' : (range w 6 5).toNat < 4 := by
    rw [toNat_range _ (by decide)]
    omega
  simp only [decode, ho, h3]
  generalize (range w 11 10).toNat = f2 at h2
  generalize (range w 6 5).toNat = f2' at h2'
  interval_cases f2
  · rfl
  · rfl
  · rfl
  · interval_cases f2'
    · show (if bit w 12 = 0 then OpCCodes.OP_C_SUB else .OP_C_SUBW).performed = true
      split <;> rfl
    · show (if bit w 12 = 0 then OpCCodes.OP_C_XOR else .OP_C_ADDW).performed = true
      split <;> rfl
    · rfl
    · rfl

/-- The operation of another quadrant or `funct3` is not `C.ADDI4SPN`. -/
theorem performs_of (hp : (decode w T).performed = true)
    (h : ¬(opcode w = 0 ∧ getFunct3 w = 0)) : Performs T w := by
  refine ⟨hp, fun hd => ?_⟩
  have hd := hd.1
  unfold decode at hd
  repeat' split at hd
  all_goals first
    | exact h ⟨‹_›, ‹_›⟩
    | cases hd

theorem performs_of_narrow (h : NarrowHole w) : Performs .RV32 w := by
  rcases h with ⟨ho, h3⟩ | ⟨ho, h3, -⟩ | ⟨ho, h3, -⟩
  · exact performs_of (by simp [decode, ho, h3, OpCCodes.performed]) (by omega)
  · exact performs_of (performed_op ho h3) (by omega)
  · exact performs_of (by simp [decode, ho, h3, OpCCodes.performed]) (by omega)

theorem performs_of_wide (h : WideHole w) : Performs .RV64 w := by
  rcases h with ⟨ho, h3, -⟩ | ⟨ho, h3, -⟩
  · exact performs_of (by simp [decode, ho, h3, OpCCodes.performed]) (by omega)
  · exact performs_of (by simp [decode, ho, h3, OpCCodes.performed]) (by omega)

theorem performs_of_shared (h : SharedHole w) : Performs T w := by
  rcases h with ⟨ho, h3, -⟩ | ⟨ho, h3, -⟩ | ⟨ho, h3⟩ | ⟨ho, h3, -⟩ | ⟨ho, h3, h1, -, h2⟩
  · exact performs_of (by simp [decode, ho, h3, OpCCodes.performed]) (by omega)
  · exact performs_of (performed_op ho h3) (by omega)
  · exact performs_of (by simp [decode, ho, h3, OpCCodes.performed]) (by omega)
  · exact performs_of (by simp [decode, ho, h3, OpCCodes.performed]) (by omega)
  · refine performs_of ?_ (by omega)
    have hb : bit w 12 = 0 := BitVec.eq_of_toNat_eq h1
    have hr : range w 6 2 = 0 := BitVec.eq_of_toNat_eq h2
    simp [decode, ho, h3, hb, hr, OpCCodes.performed]

/-! ## Instructions are no holes -/

theorem toNat_eq_zero_iff {n : ℕ} (x : BitVec n) : x.toNat = 0 ↔ x = 0#n := by
  rw [← BitVec.toNat_inj, BitVec.toNat_ofNat, Nat.zero_mod]

/-- The quadrant and the `funct3` of an instruction. -/
def codePoint : CInstr → ℕ × ℕ
  | .addi4spn .. => (0, 0)
  | .lw .. => (0, 2)
  | .ld .. => (0, 3)
  | .sw .. => (0, 6)
  | .sd .. => (0, 7)
  | .addi .. => (1, 0)
  | .jal .. | .addiw .. => (1, 1)
  | .li .. => (1, 2)
  | .addi16sp .. | .lui .. => (1, 3)
  | .srli .. | .srai .. | .andi .. | .sub .. | .xor .. | .or .. | .and .. | .subw .. | .addw .. =>
    (1, 4)
  | .j .. => (1, 5)
  | .beqz .. => (1, 6)
  | .bnez .. => (1, 7)
  | .slli .. => (2, 0)
  | .lwsp .. => (2, 2)
  | .ldsp .. => (2, 3)
  | .jr .. | .mv .. | .ebreak | .jalr .. | .add .. => (2, 4)
  | .swsp .. => (2, 6)
  | .sdsp .. => (2, 7)

theorem codePoint_encode {c : CInstr} (h : w.setWidth 16 = c.encode) :
    opcode w = (codePoint c).1 ∧ getFunct3 w = (codePoint c).2 := by
  rw [opcode_half, funct3_half, h]
  cases c <;>
    simp [codePoint, CInstr.encode, encodeC, fieldsCI, fieldsCR, fieldsCLW, fieldsCLD, fieldsCJ,
      fieldsCB, fieldsCBI, fieldsCA, BitVec.extractLsb'_or]

theorem not_narrowHole_encode {c : CInstr} (hd : c.Defined 32) (h : w.setWidth 16 = c.encode) :
    ¬NarrowHole w := by
  obtain ⟨ho, h3⟩ := codePoint_encode h
  unfold NarrowHole
  rw [ho, h3, funct1_half, funct2_half, h]
  cases c with
  | sd | subw | addw => exact absurd (show 32 = 64 from hd) (by decide)
  | srli rd shamt | srai rd shamt | slli rd shamt =>
    have hs : shamt.toNat < 32 :=
      (shamt_lt_iff shamt).mpr (Or.resolve_left hd (by decide : ¬32 = 64))
    simp [codePoint, CInstr.encode, encodeC, fieldsCI, fieldsCBI, BitVec.extractLsb'_or]
    omega
  | andi rd imm => simp [codePoint, CInstr.encode, encodeC, fieldsCBI, BitVec.extractLsb'_or]
  | sub rd rs2 | xor rd rs2 | or rd rs2 | and rd rs2 =>
    simp [codePoint, CInstr.encode, encodeC, fieldsCA, BitVec.extractLsb'_or]
  | _ => simp [codePoint]

theorem not_wideHole_encode {c : CInstr} (hd : c.Defined 64) (h : w.setWidth 16 = c.encode) :
    ¬WideHole w := by
  obtain ⟨ho, h3⟩ := codePoint_encode h
  unfold WideHole
  rw [ho, h3, rd_half, h, toNat_eq_zero_iff]
  cases c with
  | jal offset => exact absurd (show 64 = 32 from hd) (by decide)
  | addiw rd imm | ldsp rd imm =>
    simpa [codePoint, CInstr.encode, encodeC, fieldsCI, BitVec.extractLsb'_or] using hd.2
  | _ => simp [codePoint]

theorem not_sharedHole_encode {n : ℕ} {c : CInstr} (hd : c.Defined n)
    (h : w.setWidth 16 = c.encode) : ¬SharedHole w := by
  obtain ⟨ho, h3⟩ := codePoint_encode h
  unfold SharedHole
  rw [ho, h3, funct1_half, funct2_half, funct2'_half, rd_half, rs1_half, rs2_half, h]
  cases c with
  | addi16sp imm =>
    have hz := mt (toNat_eq_zero_iff imm).mp hd
    have hlt := imm.isLt
    simp [codePoint, CInstr.encode, encodeC, BitVec.extractLsb'_or, toNat_place,
      BitVec.extractLsb'_toNat]
    omega
  | lui rd imm =>
    have hz := mt (toNat_eq_zero_iff imm).mp hd.2
    have hlt := imm.isLt
    simp [codePoint, CInstr.encode, encodeC, fieldsCI, BitVec.extractLsb'_or]
    omega
  | srli rd imm | srai rd imm | andi rd imm =>
    simp [codePoint, CInstr.encode, encodeC, fieldsCBI, BitVec.extractLsb'_or]
  | sub rd rs2 | xor rd rs2 | or rd rs2 | and rd rs2 | subw rd rs2 | addw rd rs2 =>
    simp [codePoint, CInstr.encode, encodeC, fieldsCA, BitVec.extractLsb'_or]
  | lwsp rd uimm =>
    have hrd : rd ≠ 0#5 := hd
    simpa [codePoint, CInstr.encode, encodeC, BitVec.extractLsb'_or, toNat_eq_zero_iff] using hrd
  | jr rs1 =>
    have hrs1 : rs1 ≠ 0#5 := hd
    simpa [codePoint, CInstr.encode, encodeC, fieldsCR, BitVec.extractLsb'_or, toNat_eq_zero_iff]
      using hrs1
  | mv rd rs2 =>
    simp [codePoint, CInstr.encode, encodeC, fieldsCR, BitVec.extractLsb'_or, toNat_eq_zero_iff]
    exact fun _ => hd
  | ebreak | jalr rs1 | add rd rs2 =>
    simp [codePoint, CInstr.encode, encodeC, fieldsCR, BitVec.extractLsb'_or]
  | _ => simp [codePoint]

/-! ## Performed words that are no holes are instructions -/

theorem defined_quadrant0 (ho : opcode w = (0b00#2).toNat) (hp : Performs T w)
    (hn : ¬CompressedHole T w) : CompressedDefined T w := by
  have hlt := CExtension.getFunct3_lt w
  obtain ⟨hp, hz⟩ := hp
  have hq := quadrant_field ho
  have hcode : ∀ c : OpCCodes, decode w T = c → c.performed = true := fun c hc => hc ▸ hp
  generalize hf : getFunct3 w = f3 at hlt
  interval_cases f3
  · have hf0 : getFunct3 w = (0b000#3).toNat := hf
    have he := encodeC_eq (funct3_field_half hf0) (fieldsADDI4SPN_fields (w.setWidth 16) rfl) hq
    refine ⟨.addi4spn _ _, fun h0 => hz ⟨by simp [decode, ho, hf], ?_⟩, he⟩
    rw [getImmADDI4SPN_encode he, h0]
    decide
  · exact absurd (hcode .OP_C_FLD (by simp [decode, ho, hf])) (by decide)
  · exact ⟨.lw _ _ _, trivial,
      encodeC_eq (funct3_field_half hf) (fieldsCLW_fields _) hq⟩
  · cases T with
    | RV32 => exact absurd (hcode .OP_C_FLW (by simp [decode, ho, hf])) (by decide)
    | RV64 => exact ⟨.ld _ _ _, rfl, encodeC_eq (funct3_field_half hf) (fieldsCLD_fields _) hq⟩
  · exact absurd (hcode .OP_C_ERROR (by simp [decode, ho, hf])) (by decide)
  · exact absurd (hcode .OP_C_FSD (by simp [decode, ho, hf])) (by decide)
  · exact ⟨.sw _ _ _, trivial,
      encodeC_eq (funct3_field_half hf) (fieldsCLW_fields _) hq⟩
  · cases T with
    | RV32 => exact absurd (.inl ⟨rfl, .inl ⟨ho, hf⟩⟩) hn
    | RV64 => exact ⟨.sd _ _ _, rfl, encodeC_eq (funct3_field_half hf) (fieldsCLD_fields _) hq⟩

/-- An immediate in bit 12 and bits 6 to 2. -/
def immCI (h : BitVec 16) : BitVec 6 :=
  place 6 5 (h.extractLsb' 12 1) ||| place 6 0 (h.extractLsb' 2 5)

theorem immCI_top (h : BitVec 16) : (immCI h).extractLsb' 5 1 = h.extractLsb' 12 1 := by
  simp [immCI, BitVec.extractLsb'_or]

theorem immCI_low (h : BitVec 16) : (immCI h).extractLsb' 0 5 = h.extractLsb' 2 5 := by
  simp [immCI, BitVec.extractLsb'_or]

theorem immCI_eq_zero (h : immCI (w.setWidth 16) = 0) : funct1 w = 0 ∧ getRs2 w = 0 := by
  rw [funct1_half, rs2_half, ← immCI_top, ← immCI_low, h]
  exact ⟨rfl, rfl⟩

/-- An amount that the registers have. -/
theorem immCI_defined (h : T = .RV32 → funct1 w ≠ 1) :
    T.xlen = 64 ∨ (immCI (w.setWidth 16)).getLsbD 5 = false := by
  cases T with
  | RV32 =>
    right
    have hlt := funct1_lt w
    have h0 : (immCI (w.setWidth 16)).extractLsb' 5 1 = 0#1 := by
      refine BitVec.eq_of_toNat_eq ?_
      rw [immCI_top, ← funct1_half, BitVec.toNat_ofNat]
      have h1 := h rfl
      omega
    have hb := congrArg (fun x => x.getLsbD 0) h0
    simpa using hb
  | RV64 => exact .inl rfl

/-- The immediate of `C.ADDI16SP`. -/
def imm16SP (h : BitVec 16) : BitVec 6 :=
  place 6 5 (h.extractLsb' 12 1) ||| place 6 3 (h.extractLsb' 3 2) |||
    place 6 2 (h.extractLsb' 5 1) ||| place 6 1 (h.extractLsb' 2 1) |||
    place 6 0 (h.extractLsb' 6 1)

theorem imm16SP_eq_zero (h : imm16SP (w.setWidth 16) = 0) : funct1 w = 0 ∧ getRs2 w = 0 := by
  rw [funct1_half, rs2_half]
  generalize w.setWidth 16 = x at h
  have h5 : x.extractLsb' 12 1 = (imm16SP x).extractLsb' 5 1 := by
    simp [imm16SP, BitVec.extractLsb'_or]
  have h3 : x.extractLsb' 3 2 = (imm16SP x).extractLsb' 3 2 := by
    simp [imm16SP, BitVec.extractLsb'_or]
  have h2 : x.extractLsb' 5 1 = (imm16SP x).extractLsb' 2 1 := by
    simp [imm16SP, BitVec.extractLsb'_or]
  have h1 : x.extractLsb' 2 1 = (imm16SP x).extractLsb' 1 1 := by
    simp [imm16SP, BitVec.extractLsb'_or]
  have h0 : x.extractLsb' 6 1 = (imm16SP x).extractLsb' 0 1 := by
    simp [imm16SP, BitVec.extractLsb'_or]
  rw [h] at h5 h3 h2 h1 h0
  refine ⟨by rw [h5]; rfl, ?_⟩
  have h3 := congrArg BitVec.toNat h3
  have h2 := congrArg BitVec.toNat h2
  have h1 := congrArg BitVec.toNat h1
  have h0 := congrArg BitVec.toNat h0
  simp [BitVec.extractLsb'_toNat] at h3 h2 h1 h0 ⊢
  omega

/-- The operations on two short registers. -/
theorem defined_op (ho : opcode w = (0b01#2).toNat) (hf : getFunct3 w = (0b100#3).toNat)
    (h2 : funct2 w = (0b11#2).toNat) (hn : ¬CompressedHole T w) : CompressedDefined T w := by
  have hlt' : funct2' w < 4 := by
    rw [funct2'_half]
    exact BitVec.isLt _
  have hlt1 := funct1_lt w
  have he {f1 : BitVec 1} {f2 : BitVec 2} (h1 : funct1 w = f1.toNat) (h2' : funct2' w = f2.toNat) :
      w.setWidth 16 = encodeC 0b100 (fieldsCA f1 f2 _ _) 0b01 :=
    encodeC_eq (funct3_field_half hf)
      (fieldsCA_fields _ (funct1_field h1) (funct2_field h2) (funct2'_field h2'))
      (quadrant_field ho)
  generalize hf1 : funct1 w = f1 at hlt1
  generalize hf2 : funct2' w = f2 at hlt'
  interval_cases f1
  · interval_cases f2
    · exact ⟨.sub _ _, trivial, he hf1 hf2⟩
    · exact ⟨.xor _ _, trivial, he hf1 hf2⟩
    · exact ⟨.or _ _, trivial, he hf1 hf2⟩
    · exact ⟨.and _ _, trivial, he hf1 hf2⟩
  · have h64 : T = .RV64 := by
      cases T with
      | RV32 => exact absurd (.inl ⟨rfl, .inr (.inl ⟨ho, hf, by rw [h2]; decide, hf1⟩)⟩) hn
      | RV64 => rfl
    have hlow : f2 < 2 := by
      by_contra hge
      exact hn (.inr (.inr (.inr (.inl ⟨ho, hf, h2, hf1, hf2 ▸ not_lt.mp hge⟩))))
    subst h64
    interval_cases f2
    · exact ⟨.subw _ _, rfl, he hf1 hf2⟩
    · exact ⟨.addw _ _, rfl, he hf1 hf2⟩

/-- The operations on short registers. -/
theorem defined_short (ho : opcode w = (0b01#2).toNat) (hf : getFunct3 w = (0b100#3).toNat)
    (hn : ¬CompressedHole T w) : CompressedDefined T w := by
  have hlt : funct2 w < 4 := by
    rw [funct2_half]
    exact BitVec.isLt _
  have he {f2 : BitVec 2} (h2 : funct2 w = f2.toNat) :
      w.setWidth 16 = encodeC 0b100 (fieldsCBI f2 _ (immCI (w.setWidth 16))) 0b01 :=
    encodeC_eq (funct3_field_half hf) (fieldsCBI_fields _ (funct2_field h2)) (quadrant_field ho)
  have hd (h2 : funct2 w ∈ [0, 1, 3]) : T.xlen = 64 ∨ (immCI (w.setWidth 16)).getLsbD 5 = false :=
    immCI_defined fun hT h1 => hn (.inl ⟨hT, .inr (.inl ⟨ho, hf, h2, h1⟩)⟩)
  generalize hf2 : funct2 w = f2 at hlt
  interval_cases f2
  · exact ⟨.srli _ _, hd (by rw [hf2]; decide), he hf2⟩
  · exact ⟨.srai _ _, hd (by rw [hf2]; decide), he hf2⟩
  · exact ⟨.andi _ _, trivial, he hf2⟩
  · exact defined_op ho hf hf2 hn

theorem defined_quadrant1 (ho : opcode w = (0b01#2).toNat) (hn : ¬CompressedHole T w) :
    CompressedDefined T w := by
  have hlt := CExtension.getFunct3_lt w
  have hq := quadrant_field ho
  generalize hf : getFunct3 w = f3 at hlt
  interval_cases f3
  · exact ⟨.addi _ _, trivial, encodeC_eq (funct3_field_half hf) (fieldsCI_fields _) hq⟩
  · cases T with
    | RV32 => exact ⟨.jal _, rfl, encodeC_eq (funct3_field_half hf) (fieldsCJ_fields _) hq⟩
    | RV64 =>
      refine ⟨.addiw _ _, ⟨rfl, fun hrd => ?_⟩,
        encodeC_eq (funct3_field_half hf) (fieldsCI_fields _) hq⟩
      exact hn (.inr (.inl ⟨rfl, .inl ⟨ho, hf, rd_half.trans (congrArg _ hrd)⟩⟩))
  · exact ⟨.li _ _, trivial, encodeC_eq (funct3_field_half hf) (fieldsCI_fields _) hq⟩
  · have hz (h : funct1 w = 0 ∧ getRs2 w = 0) : False :=
      hn (.inr (.inr (.inl ⟨ho, hf, h⟩)))
    by_cases hrd : (w.setWidth 16).extractLsb' 7 5 = 2#5
    · exact ⟨.addi16sp _, fun h => hz (imm16SP_eq_zero h),
        encodeC_eq (funct3_field_half hf) (fieldsADDI16SP_fields _ hrd rfl) hq⟩
    · exact ⟨.lui _ _, ⟨hrd, fun h => hz (immCI_eq_zero h)⟩,
        encodeC_eq (funct3_field_half hf) (fieldsCI_fields _) hq⟩
  · exact defined_short ho hf hn
  · exact ⟨.j _, trivial, encodeC_eq (funct3_field_half hf) (fieldsCJ_fields _) hq⟩
  · exact ⟨.beqz _ _, trivial, encodeC_eq (funct3_field_half hf) (fieldsCB_fields _) hq⟩
  · exact ⟨.bnez _ _, trivial, encodeC_eq (funct3_field_half hf) (fieldsCB_fields _) hq⟩

/-- The jumps to a register and the operations on two registers. -/
theorem defined_jump (ho : opcode w = (0b10#2).toNat) (hf : getFunct3 w = (0b100#3).toNat)
    (hn : ¬CompressedHole T w) : CompressedDefined T w := by
  have hlt1 := funct1_lt w
  have he {f1 : BitVec 1} {rd rs2 : Reg} (h1 : funct1 w = f1.toNat)
      (hrd : (w.setWidth 16).extractLsb' 7 5 = rd) (hrs2 : (w.setWidth 16).extractLsb' 2 5 = rs2) :
      w.setWidth 16 = encodeC 0b100 (fieldsCR f1 rd rs2) 0b10 :=
    encodeC_eq (funct3_field_half hf) (fieldsCR_fields _ (funct1_field h1) hrd hrs2)
      (quadrant_field ho)
  have h0 {r : Reg} (hr : r = 0) : r.toNat = 0 := by rw [hr]; rfl
  generalize hf1 : funct1 w = f1 at hlt1
  interval_cases f1
  · by_cases hrs2 : (w.setWidth 16).extractLsb' 2 5 = 0
    · refine ⟨.jr _, fun hrd => ?_, he hf1 rfl hrs2⟩
      exact hn (.inr (.inr (.inr (.inr (.inr (.inr
        ⟨ho, hf, hf1, rd_half.trans (h0 hrd), rs2_half.trans (h0 hrs2)⟩))))))
    · exact ⟨.mv _ _, hrs2, he hf1 rfl rfl⟩
  · by_cases hrs2 : (w.setWidth 16).extractLsb' 2 5 = 0
    · by_cases hrd : (w.setWidth 16).extractLsb' 7 5 = 0
      · exact ⟨.ebreak, trivial, he hf1 hrd hrs2⟩
      · exact ⟨.jalr _, hrd, he hf1 rfl hrs2⟩
    · exact ⟨.add _ _, hrs2, he hf1 rfl rfl⟩

theorem defined_quadrant2 (ho : opcode w = (0b10#2).toNat) (hp : Performs T w)
    (hn : ¬CompressedHole T w) : CompressedDefined T w := by
  have hlt := CExtension.getFunct3_lt w
  obtain ⟨hp, -⟩ := hp
  have hq := quadrant_field ho
  have hcode : ∀ c : OpCCodes, decode w T = c → c.performed = true := fun c hc => hc ▸ hp
  generalize hf : getFunct3 w = f3 at hlt
  interval_cases f3
  · refine ⟨.slli _ _, immCI_defined fun hT h1 => ?_,
      encodeC_eq (funct3_field_half hf) (fieldsCI_fields _) hq⟩
    exact hn (.inl ⟨hT, .inr (.inr ⟨ho, hf, h1⟩)⟩)
  · exact absurd (.inr (.inr (.inr (.inr (.inl ⟨ho, hf⟩))))) hn
  · refine ⟨.lwsp _ _, fun hrd => ?_,
      encodeC_eq (funct3_field_half hf) (fieldsLWSP_fields _ rfl) hq⟩
    exact hn (.inr (.inr (.inr (.inr (.inr (.inl ⟨ho, hf, rd_half.trans (congrArg _ hrd)⟩))))))
  · cases T with
    | RV32 => exact absurd (hcode .OP_C_FLWSP (by simp [decode, ho, hf])) (by decide)
    | RV64 =>
      refine ⟨.ldsp _ _, ⟨rfl, fun hrd => ?_⟩,
        encodeC_eq (funct3_field_half hf) (fieldsLDSP_fields _ rfl) hq⟩
      exact hn (.inr (.inl ⟨rfl, .inr ⟨ho, hf, rd_half.trans (congrArg _ hrd)⟩⟩))
  · exact defined_jump ho hf hn
  · exact absurd (hcode .OP_C_ERROR (by simp [decode, ho, hf])) (by decide)
  · exact ⟨.swsp _ _, trivial,
      encodeC_eq (funct3_field_half hf) (fieldsSWSP_fields _ rfl) hq⟩
  · cases T with
    | RV32 => exact absurd (hcode .OP_C_FSWSP (by simp [decode, ho, hf])) (by decide)
    | RV64 =>
      exact ⟨.sdsp _ _, rfl, encodeC_eq (funct3_field_half hf) (fieldsSDSP_fields _ rfl) hq⟩

theorem compressedDefined_of (hp : Performs T w) (hn : ¬CompressedHole T w) :
    CompressedDefined T w := by
  have hlt : opcode w < 4 := by
    rw [opcode_half]
    exact BitVec.isLt _
  generalize ho : opcode w = q at hlt
  interval_cases q
  · exact defined_quadrant0 ho hp hn
  · exact defined_quadrant1 ho hn
  · exact defined_quadrant2 ho hp hn
  · exact absurd (show OpCCodes.performed .OP_C_ERROR = true by
      simpa [decode, ho] using hp.1) (by decide)

/-- The C extension performs only instructions of its set exactly outside the table of holes. -/
theorem performs_defined_iff : (Performs T w → CompressedDefined T w) ↔ ¬CompressedHole T w := by
  constructor
  · rintro h (⟨rfl, hw⟩ | ⟨rfl, hw⟩ | hw)
    · obtain ⟨c, hd, he⟩ := h (performs_of_narrow hw)
      exact not_narrowHole_encode hd he hw
    · obtain ⟨c, hd, he⟩ := h (performs_of_wide hw)
      exact not_wideHole_encode hd he hw
    · obtain ⟨c, hd, he⟩ := h (performs_of_shared hw)
      exact not_sharedHole_encode hd he hw
  · intro hn hp
    exact compressedDefined_of hp hn

/-! ## Both decoders -/

/-- Both decoders take the word only for an instruction of their set. -/
def AcceptsOnlyDefined (T : CpuType) (w : BitVec 32) : Prop :=
  (BaseIsa.decode w ≠ .OP_ERROR → BaseDefined T w) ∧ (Performs T w → CompressedDefined T w)

/-- The decoders take a word for an instruction only, exactly if it is in neither table of holes. -/
theorem acceptsOnlyDefined_iff (T : CpuType) (w : BitVec 32) :
    AcceptsOnlyDefined T w ↔ ¬BaseHole T w ∧ ¬CompressedHole T w :=
  and_congr decode_defined_iff performs_defined_iff

/-- `LD x5, 0(x6)` in the narrow decoder, and `C.FSW f8, 0(x8)`, executed as a store. -/
theorem not_acceptsOnlyDefined_ld :
    ¬AcceptsOnlyDefined .RV32 0x00033283 ∧ ¬AcceptsOnlyDefined .RV32 0x0000E000 := by
  refine ⟨fun h => ?_, fun h => ?_⟩
  · exact decode_defined_iff.mp h.1 (by decide)
  · exact performs_defined_iff.mp h.2 (.inl ⟨rfl, .inl ⟨rfl, rfl⟩⟩)

end RiscvTlm
