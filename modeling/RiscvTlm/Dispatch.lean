import RiscvTlm.Cpu

/-!
# Which words reach the M and A extensions

The words each decoder of the cascade accepts, by their fields, and from them the exact set of words
that are executed as a multiplication, a division or an atomic without being one: words that the
base and C decoders reject and that the M decoder, which looks at `funct3`, or the A decoder, which
looks at bits 31 to 27, picks up.
-/

namespace RiscvTlm

open BaseIsa ExtensionBase BitField

variable {T : CpuType} {w : BitVec 32}

/-! ## The words a decoder accepts -/

/-- The table of the base decoder: opcode, then the fields it looks at. -/
def BaseWord (w : BitVec 32) : Prop :=
  opcode w = Codes.LUI ∨ opcode w = Codes.AUIPC ∨ opcode w = Codes.JAL ∨ opcode w = Codes.JALR ∨
  opcode w = Codes.FENCE ∨
  opcode w = Codes.BEQ ∧ getFunct3 w ≠ 2 ∧ getFunct3 w ≠ 3 ∨
  opcode w = Codes.LB ∧ getFunct3 w ≠ 7 ∨
  opcode w = Codes.SB ∧ getFunct3 w ≤ 3 ∨
  opcode w = Codes.ADDI ∧ (getFunct3 w = 5 → (range w 31 26).toNat ∈ [0, 16]) ∨
  opcode w = Codes.ADD ∧ getFunct7 w ∈ [0, 32] ∨
  opcode w = Codes.ECALL ∧ getFunct3 w ≠ 4 ∧
    (getFunct3 w = 0 → getCsr w ∈ [0, 1, 2, 9, 0x102, 0x105, 0x302] ∨ getFunct7 w = 9) ∨
  opcode w = Codes.ADDIW ∧ (getFunct3 w ≤ 1 ∨
    getFunct3 w = 5 ∧ (range w 31 26).toNat ∈ [0, 16]) ∨
  opcode w = Codes.ADDW ∧ getFunct7 w ∈ [0, 32] ∧ getFunct3 w ∈ [0, 1, 5]

/-- The compressed words the C decoder rejects. -/
def CReserved (w : BitVec 32) : Prop :=
  CExtension.opcode w = 0 ∧ CExtension.getFunct3 w = 4 ∨
    CExtension.opcode w = 2 ∧ CExtension.getFunct3 w = 5

/-- The table of the M decoder. -/
def MTable (w : BitVec 32) : Prop := opcode w = 0b0110011 ∨ getFunct3 w ∉ [1, 2, 3]

/-- The table of the A decoder. -/
def ATable (w : BitVec 32) : Prop := AExtension.opcode w ∈ [0, 1, 2, 3, 4, 8, 12, 16, 20, 24, 28]

theorem getFunct3_lt (w : BitVec 32) : getFunct3 w < 8 := by
  rw [getFunct3, toNat_range _ (by decide)]
  omega

theorem CExtension.getFunct3_lt (w : BitVec 32) : CExtension.getFunct3 w < 8 := by
  rw [CExtension.getFunct3, toNat_range _ (by decide)]
  omega

theorem funct6_eq (w : BitVec 32) : (range w 31 26).toNat = getFunct7 w / 2 := by
  rw [getFunct7, toNat_range _ (by decide), toNat_range _ (by decide)]
  omega

theorem decode_ne_error_iff : BaseIsa.decode w ≠ .OP_ERROR ↔ BaseWord w := by
  have h3 := getFunct3_lt w
  have h7 : (range w 31 25).toNat = getFunct7 w := rfl
  have h6 := funct6_eq w
  unfold BaseIsa.decode BaseWord
  generalize getFunct3 w = f3 at *
  generalize (range w 31 26).toNat = f6 at *
  generalize getFunct7 w = f7 at *
  rw [h7]
  split <;> simp_all <;> grind

theorem decode_c_ne_error_iff : CExtension.decode w T ≠ .OP_C_ERROR ↔
    CExtension.opcode w ≠ 3 ∧ ¬CReserved w := by
  have h3 := CExtension.getFunct3_lt w
  have ho : CExtension.opcode w < 4 := by
    rw [CExtension.opcode, toNat_range _ (by decide)]
    omega
  have h1 : (range w 11 10).toNat < 4 := by
    rw [toNat_range _ (by decide)]
    omega
  have h2 : (range w 6 5).toNat < 4 := by
    rw [toNat_range _ (by decide)]
    omega
  unfold CExtension.decode CReserved
  grind

theorem decode_m_ne_error_iff : MExtension.decode w ≠ .OP_M_ERROR ↔ MTable w := by
  have h3 : MExtension.opcode w = getFunct3 w := rfl
  have hlt := getFunct3_lt w
  have ho : range w 6 0 = 0b110011 ↔ opcode w = 0b0110011 := BitVec.toNat_inj.symm
  unfold MExtension.decode MTable
  rw [h3]
  grind

theorem decode_a_ne_error_iff : AExtension.decode w ≠ .OP_A_ERROR ↔ ATable w := by
  unfold AExtension.decode ATable
  split <;> simp_all

/-! ## Soundness of the dispatch -/

/-- A multiplication or division of the manual. -/
def MWord (T : CpuType) (w : BitVec 32) : Prop :=
  CExtension.opcode w = 0b11 ∧ (opcode w = 0b0110011 ∨ T = .RV64 ∧ opcode w = 0b0111011) ∧
    getFunct7 w = 0b0000001

/-- An opcode and width of the atomics. -/
def AWord (T : CpuType) (w : BitVec 32) : Prop :=
  opcode w = 0b0101111 ∧ (getFunct3 w = 0b010 ∨ T = .RV64 ∧ getFunct3 w = 0b011)

/-- The M and A extensions execute the word only if it is one of theirs. -/
def DispatchSound (T : CpuType) (w : BitVec 32) : Prop :=
  (∀ code, decodeCascade T w = .m code → MWord T w) ∧
    ∀ code, decodeCascade T w = .a code → AWord T w

/-- The words that are dispatched soundly: those the base table or the compressed decoder takes,
the multiplications and divisions, the atomics, and the words that no table holds. -/
def SoundWord (T : CpuType) (w : BitVec 32) : Prop :=
  BaseWord w ∨
  CExtension.opcode w ≠ 3 ∧ ¬CReserved w ∨
  opcode w = 0b0110011 ∧ getFunct7 w = 1 ∨
  T = .RV64 ∧ opcode w = 0b0111011 ∧ getFunct7 w = 1 ∧ getFunct3 w ∉ [1, 2, 3] ∨
  opcode w = 0b0101111 ∧ (getFunct3 w = 2 ∨ T = .RV64 ∧ getFunct3 w = 3) ∨
  opcode w ≠ 0b0110011 ∧ getFunct3 w ∈ [1, 2, 3] ∧ ¬ATable w

theorem opcode_mod_four (w : BitVec 32) : opcode w % 4 = CExtension.opcode w := by
  rw [CExtension.opcode, opcode, toNat_range _ (by decide), toNat_range _ (by decide)]
  omega

/-- What the cascade does with a word, by the tables. -/
theorem decodeCascade_m_iff : (∃ code, decodeCascade T w = .m code) ↔
    ¬BaseWord w ∧ ¬(CExtension.opcode w ≠ 3 ∧ ¬CReserved w) ∧ MTable w := by
  rw [← decode_ne_error_iff, ← decode_c_ne_error_iff (T := T), ← decode_m_ne_error_iff]
  simp only [decodeCascade]
  split_ifs <;> simp_all

theorem decodeCascade_a_iff : (∃ code, decodeCascade T w = .a code) ↔
    ¬BaseWord w ∧ ¬(CExtension.opcode w ≠ 3 ∧ ¬CReserved w) ∧ ¬MTable w ∧ ATable w := by
  rw [← decode_ne_error_iff, ← decode_c_ne_error_iff (T := T), ← decode_m_ne_error_iff,
    ← decode_a_ne_error_iff]
  simp only [decodeCascade]
  split_ifs <;> simp_all

/-- The dispatch of a word is sound exactly for the words of `SoundWord`. -/
theorem dispatchSound_iff (T : CpuType) (w : BitVec 32) : DispatchSound T w ↔ SoundWord T w := by
  have hq := opcode_mod_four w
  have h5 : AExtension.opcode w = getFunct7 w / 4 := by
    rw [AExtension.opcode, getFunct7, toNat_range _ (by decide), toNat_range _ (by decide)]
    omega
  unfold DispatchSound
  rw [← forall_exists_index (q := fun _ => MWord T w), decodeCascade_m_iff,
    ← forall_exists_index (q := fun _ => AWord T w), decodeCascade_a_iff]
  unfold SoundWord MWord AWord MTable ATable
  grind

/-- `FADD.S f0, f0, f0` is executed as `MULW`. -/
theorem dispatchSound_fadd : ¬DispatchSound .RV32 0x00000053 := by
  intro h
  have hm := (h.1 .OP_M_MULW (by decide)).2.2
  exact absurd hm (by decide)

end RiscvTlm
