import Mathlib.Tactic.IntervalCases
import RiscvTlm.Dispatch
import RiscvTlm.DecodeEncode
import RiscvTlm.Isa.Formats

/-!
# The grammar of the base decoder

Which words the base decoder accepts without their being instructions of its instruction set. The
table of holes lists them by their fields: functions and reserved fields that a `case` does not look
at, and amounts and operations of the wide registers in the narrow decoder.
-/

namespace RiscvTlm

open Isa BitField BaseIsa ExtensionBase

variable {T : CpuType} {w : BitVec 32}

/-! ## The grammar and the holes -/

/-- The instructions of the base decoder: those of neither the M nor the A extension. -/
def BaseInstr : Instr → Prop
  | .mul .. | .mulW .. | .lrW .. | .scW .. | .amoW .. => False
  | _ => True

/-- A word of the base instruction set. The fences ignore their reserved fields. -/
def BaseDefined (T : CpuType) (w : BitVec 32) : Prop :=
  (∃ i : Instr, BaseInstr i ∧ i.Defined T.xlen ∧ encode i = w) ∨
  (∃ imm rs1 f3 rd, (f3 = 0b000 ∨ f3 = 0b001) ∧ encodeI imm rs1 f3 rd 0b0001111 = w) ∨
  encodeI 0x002 0 0b000 0 0b1110011 = w

/-- Bits 31 to 26. -/
def funct6 (w : BitVec 32) : ℕ := (range w 31 26).toNat

/-- The operations of the wide registers, as the decoder takes them for both widths. -/
def WideWord (w : BitVec 32) : Prop :=
  opcode w = Codes.LB ∧ getFunct3 w ∈ [3, 6] ∨
  opcode w = Codes.SB ∧ getFunct3 w = 3 ∨
  opcode w = Codes.ADDI ∧ (getFunct3 w = 1 ∨ getFunct3 w = 5 ∧ funct6 w ∈ [0, 16]) ∧
    32 ≤ getShamt w ∨
  opcode w = Codes.ADDIW ∧ (getFunct3 w ≤ 1 ∨ getFunct3 w = 5 ∧ funct6 w ∈ [0, 16]) ∨
  opcode w = Codes.ADDW ∧ getFunct7 w ∈ [0, 32] ∧ getFunct3 w ∈ [0, 1, 5]

/-- The words with a wrong function, amount or reserved field that the decoder accepts. -/
def WrongField (w : BitVec 32) : Prop :=
  opcode w = Codes.JALR ∧ getFunct3 w ≠ 0 ∨
  opcode w = Codes.FENCE ∧ 2 ≤ getFunct3 w ∨
  opcode w = Codes.ADDI ∧ getFunct3 w = 1 ∧ funct6 w ≠ 0 ∨
  opcode w = Codes.ADD ∧ getFunct7 w = 32 ∧ getFunct3 w ∉ [0, 5] ∨
  opcode w = Codes.ADDIW ∧ getFunct3 w = 1 ∧ getFunct7 w ≠ 0 ∨
  opcode w = Codes.ADDIW ∧ getFunct3 w = 5 ∧ funct6 w ∈ [0, 16] ∧ 32 ≤ getShamt w ∨
  opcode w = Codes.ADDW ∧ getFunct7 w = 32 ∧ getFunct3 w = 1 ∨
  opcode w = Codes.ECALL ∧ getFunct3 w = 0 ∧
    (getCsr w ∈ [0, 1, 2, 0x102, 0x105, 0x302] ∧ ¬(getRd w = 0 ∧ getRs1 w = 0) ∨
      getCsr w = 9 ∨ getFunct7 w = 9 ∧ getRd w ≠ 0)

/-- The words that the base decoder accepts and that are no instructions. -/
def BaseHole (T : CpuType) (w : BitVec 32) : Prop := T = .RV32 ∧ WideWord w ∨ WrongField w

instance (w : BitVec 32) : Decidable (WideWord w) := inferInstanceAs (Decidable (_ ∨ _))

instance (w : BitVec 32) : Decidable (WrongField w) := inferInstanceAs (Decidable (_ ∨ _))

instance (T : CpuType) (w : BitVec 32) : Decidable (BaseHole T w) :=
  inferInstanceAs (Decidable (_ ∨ _))

/-! ## Fields as numbers -/

theorem opcode_field {opc : BitVec 7} (h : opcode w = opc.toNat) : w.extractLsb' 0 7 = opc :=
  extractLsb'_of_range h rfl (by decide)

theorem funct3_field {f3 : BitVec 3} (h : getFunct3 w = f3.toNat) : w.extractLsb' 12 3 = f3 :=
  extractLsb'_of_range h rfl (by decide)

theorem funct7_field {f7 : BitVec 7} (h : getFunct7 w = f7.toNat) : w.extractLsb' 25 7 = f7 :=
  extractLsb'_of_range h rfl (by decide)

theorem funct6_field {f6 : BitVec 6} (h : funct6 w = f6.toNat) : w.extractLsb' 26 6 = f6 :=
  extractLsb'_of_range h rfl (by decide)

theorem csr_field {csr : BitVec 12} (h : getCsr w = csr.toNat) : w.extractLsb' 20 12 = csr :=
  extractLsb'_of_range h rfl (by decide)

theorem rd_field {rd : Reg} (h : getRd w = rd.toNat) : w.extractLsb' 7 5 = rd :=
  extractLsb'_of_range h rfl (by decide)

theorem rs1_field {rs1 : Reg} (h : getRs1 w = rs1.toNat) : w.extractLsb' 15 5 = rs1 :=
  extractLsb'_of_range h rfl (by decide)

theorem funct7_eq (w : BitVec 32) : getFunct7 w = 2 * funct6 w + getShamt w / 32 := by
  rw [getFunct7, funct6, getShamt, toNat_range _ (by decide), toNat_range _ (by decide),
    toNat_range _ (by decide)]
  omega

theorem getCsr_eq (w : BitVec 32) : getCsr w = 32 * getFunct7 w + getRs2 w := by
  rw [getCsr, getFunct7, getRs2, toNat_range _ (by decide), toNat_range _ (by decide),
    toNat_range _ (by decide)]
  omega

@[simp] theorem funct6_encodeShift (f6 shamt : BitVec 6) (rs1 : Reg) (f3 : BitVec 3) (rd : Reg)
    (opc : BitVec 7) : funct6 (encodeShift f6 shamt rs1 f3 rd opc) = f6.toNat := by
  simp [funct6]

/-- A fence with the reserved fields zero. -/
theorem encodeFence_eq (fm pred succ : BitVec 4) (f3 : BitVec 3) :
    encodeFence fm pred succ f3 =
      encodeI (place 12 8 fm ||| place 12 4 pred ||| place 12 0 succ) 0 f3 0 0b0001111 := by
  have hr (p : ℕ) : place 32 p (0#5) = 0#32 := by simp [place]
  have hi : place 32 20 (place 12 8 fm ||| place 12 4 pred ||| place 12 0 succ) =
      place 32 28 fm ||| place 32 24 pred ||| place 32 20 succ := by
    rw [place_or, place_or, place_place fm (by decide), place_place pred (by decide),
      place_place succ (by decide)]
  have h0 : (0 : Reg) = 0#5 := rfl
  rw [encodeI, hi, h0, hr, hr, BitVec.or_zero, BitVec.or_zero]
  rfl

/-! ## Functions as operations -/

section Functions

variable {n : ℕ}

theorem exists_branchOp (h : n < 8) (h2 : n ≠ 2) (h3 : n ≠ 3) :
    ∃ op : BranchOp, n = op.funct3.toNat := by
  interval_cases n
  exacts [⟨.beq, rfl⟩, ⟨.bne, rfl⟩, (h2 rfl).elim, (h3 rfl).elim, ⟨.blt, rfl⟩, ⟨.bge, rfl⟩,
    ⟨.bltu, rfl⟩, ⟨.bgeu, rfl⟩]

/-- A load, one of the wide registers for the numbers 3 and 6. -/
theorem exists_loadOp (h : n < 8) (h7 : n ≠ 7) :
    ∃ op : LoadOp, n = op.funct3.toNat ∧ (op = .ld ∨ op = .lwu → n ∈ [3, 6]) := by
  interval_cases n
  exacts [⟨.lb, rfl, by decide⟩, ⟨.lh, rfl, by decide⟩, ⟨.lw, rfl, by decide⟩,
    ⟨.ld, rfl, by decide⟩, ⟨.lbu, rfl, by decide⟩, ⟨.lhu, rfl, by decide⟩, ⟨.lwu, rfl, by decide⟩,
    (h7 rfl).elim]

theorem exists_storeOp (h : n ≤ 3) :
    ∃ op : StoreOp, n = op.funct3.toNat ∧ (op = .sd → n = 3) := by
  interval_cases n
  exacts [⟨.sb, rfl, by decide⟩, ⟨.sh, rfl, by decide⟩, ⟨.sw, rfl, by decide⟩,
    ⟨.sd, rfl, by decide⟩]

theorem exists_immOp (h : n < 8) (h1 : n ≠ 1) (h5 : n ≠ 5) :
    ∃ op : ImmOp, n = op.funct3.toNat := by
  interval_cases n
  exacts [⟨.addi, rfl⟩, (h1 rfl).elim, ⟨.slti, rfl⟩, ⟨.sltiu, rfl⟩, ⟨.xori, rfl⟩, (h5 rfl).elim,
    ⟨.ori, rfl⟩, ⟨.andi, rfl⟩]

theorem exists_regOp (h : n < 8) : ∃ op : RegOp, n = op.funct3.toNat ∧ 0 = op.funct7.toNat := by
  interval_cases n
  exacts [⟨.add, rfl, rfl⟩, ⟨.sll, rfl, rfl⟩, ⟨.slt, rfl, rfl⟩, ⟨.sltu, rfl, rfl⟩,
    ⟨.xor, rfl, rfl⟩, ⟨.srl, rfl, rfl⟩, ⟨.or, rfl, rfl⟩, ⟨.and, rfl, rfl⟩]

theorem exists_csrOp (h : n < 8) (h0 : n ≠ 0) (h4 : n ≠ 4) :
    ∃ op : CsrOp, n = op.funct3.toNat ∨ n = op.funct3Imm.toNat := by
  interval_cases n
  exacts [(h0 rfl).elim, ⟨.rw, .inl rfl⟩, ⟨.rs, .inl rfl⟩, ⟨.rc, .inl rfl⟩, (h4 rfl).elim,
    ⟨.rw, .inr rfl⟩, ⟨.rs, .inr rfl⟩, ⟨.rc, .inr rfl⟩]

end Functions

/-! ## Holes are accepted -/

theorem baseWord_of_wide (h : WideWord w) : BaseWord w := by
  unfold WideWord funct6 at h
  unfold BaseWord
  rcases h with ⟨ho, h3⟩ | ⟨ho, h3⟩ | ⟨ho, h3, -⟩ | ⟨ho, h3⟩ | ⟨ho, h7, h3⟩
  all_goals simp only [ho]
  · simp at h3 ⊢
    omega
  · simp at h3 ⊢
    omega
  · simp at h3 ⊢
    omega
  · simp at h3 ⊢
    omega
  · simp at h3 h7 ⊢
    omega

theorem baseWord_of_wrong (h : WrongField w) : BaseWord w := by
  have h3 := getFunct3_lt w
  unfold WrongField at h
  unfold BaseWord
  rcases h with ⟨ho, h⟩ | ⟨ho, h⟩ | ⟨ho, h⟩ | ⟨ho, h⟩ | ⟨ho, h⟩ | ⟨ho, h⟩ | ⟨ho, h⟩ | ⟨ho, h⟩
  all_goals simp only [ho]
  · simp
  · simp
  · simp at h ⊢
    omega
  · simp at h ⊢
    omega
  · simp at h ⊢
    omega
  · simp [funct6] at h ⊢
    omega
  · simp at h ⊢
    omega
  · simp at h ⊢
    omega

/-! ## Instructions are no holes -/

/-- No instruction of the narrow registers is one of the wide ones. -/
theorem not_wideWord_encode {i : Instr} (hb : BaseInstr i) (hd : i.Defined 32) :
    ¬WideWord (encode i) := by
  cases i with
  | lui rd imm => simp [WideWord, encode]
  | auipc rd imm => simp [WideWord, encode]
  | jal rd offset => simp [WideWord, encode]
  | jalr rd rs1 imm => simp [WideWord, encode]
  | branch op rs1 rs2 offset => simp [WideWord, encode]
  | load op rd rs1 imm =>
    cases op <;> simp [WideWord, encode, LoadOp.funct3, Instr.Defined] at hd ⊢
  | store op rs1 rs2 imm =>
    cases op <;> simp [WideWord, encode, StoreOp.funct3, Instr.Defined] at hd ⊢
  | opImm op rd rs1 imm => cases op <;> simp [WideWord, encode, ImmOp.funct3]
  | shiftImm op rd rs1 shamt =>
    have hs : shamt.toNat < 32 := (shamt_lt_iff shamt).mpr (hd.resolve_left (by decide))
    simp [WideWord, encode, hs]
  | op op rd rs1 rs2 => simp [WideWord, encode]
  | addiw | shiftImmW | opW => exact absurd (show 32 = 64 from hd) (by decide)
  | mul | mulW | lrW | scW | amoW => exact hb.elim
  | csr op rd rs1 csr => simp [WideWord, encode]
  | csrImm op rd uimm csr => simp [WideWord, encode]
  | fence fm pred succ => simp [WideWord, encode, encodeFence_eq]
  | sfenceVma rs1 rs2 => simp [WideWord, encode]
  | fenceI | ecall | ebreak | mret | sret | wfi => decide

/-- An instruction has its own function and no reserved field set. -/
theorem not_wrongField_encode {i : Instr} (hb : BaseInstr i) : ¬WrongField (encode i) := by
  cases i with
  | lui rd imm => simp [WrongField, encode]
  | auipc rd imm => simp [WrongField, encode]
  | jal rd offset => simp [WrongField, encode]
  | jalr rd rs1 imm => simp [WrongField, encode]
  | branch op rs1 rs2 offset => simp [WrongField, encode]
  | load op rd rs1 imm => simp [WrongField, encode]
  | store op rs1 rs2 imm => simp [WrongField, encode]
  | opImm op rd rs1 imm => cases op <;> simp [WrongField, encode, ImmOp.funct3]
  | shiftImm op rd rs1 shamt =>
    cases op <;> simp [WrongField, encode, ShiftOp.funct3, ShiftOp.funct6]
  | op op rd rs1 rs2 => cases op <;> simp [WrongField, encode, RegOp.funct3, RegOp.funct7]
  | addiw rd rs1 imm => simp [WrongField, encode]
  | shiftImmW op rd rs1 shamt =>
    have hs : getShamt (encode (.shiftImmW op rd rs1 shamt)) < 32 :=
      (range_25_20_shiftImmW op rd rs1 shamt).trans_lt shamt.isLt
    cases op <;> simp [WrongField, encode, ShiftOp.funct3, ShiftOp.funct7] at hs ⊢
    · exact fun _ => hs
    · exact fun _ => hs
  | opW op rd rs1 rs2 => cases op <;> simp [WrongField, encode, RegOpW.funct3, RegOpW.funct7]
  | mul | mulW | lrW | scW | amoW => exact hb.elim
  | csr op rd rs1 csr => cases op <;> simp [WrongField, encode, CsrOp.funct3]
  | csrImm op rd uimm csr => cases op <;> simp [WrongField, encode, CsrOp.funct3Imm]
  | fence fm pred succ => simp [WrongField, encode, encodeFence_eq]
  | sfenceVma rs1 rs2 =>
    have hlt := rs2.isLt
    simp [WrongField, encode, getCsr_eq]
    omega
  | fenceI | ecall | ebreak | mret | sret | wfi => decide

/-! ## Accepted words that are no holes are instructions -/

theorem not_wide (hn : ¬BaseHole T w) (h : WideWord w) : T.xlen = 64 := by
  cases T with
  | RV32 => exact absurd (.inl ⟨rfl, h⟩) hn
  | RV64 => rfl

/-- An amount that the narrow registers have. -/
theorem shamt_defined (hn : ¬BaseHole T w) (h : 32 ≤ getShamt w → WideWord w) :
    T.xlen = 64 ∨ (w.extractLsb' 20 6).getLsbD 5 = false := by
  by_cases hs : 32 ≤ getShamt w
  · exact .inl (not_wide hn (h hs))
  · right
    rw [← shamt_lt_iff, BitVec.lt_def]
    have hx : getShamt w = (w.extractLsb' 20 6).toNat :=
      BitVec.toNat_setWidth_of_le (by decide : 6 ≤ 64)
    rw [← hx]
    exact not_le.mp hs

theorem baseDefined_opImm (hn : ¬BaseHole T w) (ho : opcode w = Codes.ADDI)
    (h5 : getFunct3 w = 5 → funct6 w ∈ [0, 16]) : BaseDefined T w := by
  by_cases h3 : getFunct3 w = (0b001#3).toNat
  · have h6 : funct6 w = (0b000000#6).toNat := by
      by_contra h6
      exact hn (.inr (.inr (.inr (.inl ⟨ho, h3, h6⟩))))
    exact .inl ⟨.shiftImm .sll _ _ _, trivial,
      shamt_defined hn fun hs => .inr (.inr (.inl ⟨ho, .inl h3, hs⟩)),
      encodeShift_eq (funct6_field h6) rfl rfl (funct3_field h3) rfl (opcode_field ho)⟩
  by_cases h3' : getFunct3 w = (0b101#3).toNat
  · have hd : T.xlen = 64 ∨ (w.extractLsb' 20 6).getLsbD 5 = false :=
      shamt_defined hn fun hs => .inr (.inr (.inl ⟨ho, .inr ⟨h3', h5 h3'⟩, hs⟩))
    have h6 : funct6 w = (0b000000#6).toNat ∨ funct6 w = (0b010000#6).toNat := by
      simpa using h5 h3'
    rcases h6 with h6 | h6
    · exact .inl ⟨.shiftImm .srl _ _ _, trivial, hd,
        encodeShift_eq (funct6_field h6) rfl rfl (funct3_field h3') rfl (opcode_field ho)⟩
    · exact .inl ⟨.shiftImm .sra _ _ _, trivial, hd,
        encodeShift_eq (funct6_field h6) rfl rfl (funct3_field h3') rfl (opcode_field ho)⟩
  · obtain ⟨op, hop⟩ := exists_immOp (getFunct3_lt w) h3 h3'
    exact .inl ⟨.opImm op _ _ _, trivial, trivial,
      encodeI_eq rfl rfl (funct3_field hop) rfl (opcode_field ho)⟩

theorem baseDefined_op (hn : ¬BaseHole T w) (ho : opcode w = Codes.ADD)
    (h7 : getFunct7 w ∈ [0, 32]) : BaseDefined T w := by
  have h7' : getFunct7 w = 0 ∨ getFunct7 w = (0b0100000#7).toNat := by simpa using h7
  rcases h7' with h7 | h7
  · obtain ⟨op, hop, hop7⟩ := exists_regOp (getFunct3_lt w)
    exact .inl ⟨.op op _ _ _, trivial, trivial, encodeR_eq (funct7_field (h7.trans hop7)) rfl rfl
      (funct3_field hop) rfl (opcode_field ho)⟩
  · have h3 : getFunct3 w = (0b000#3).toNat ∨ getFunct3 w = (0b101#3).toNat := by
      by_contra h3
      exact hn (.inr (.inr (.inr (.inr (.inl ⟨ho, h7, by simpa using h3⟩)))))
    rcases h3 with h3 | h3
    · exact .inl ⟨.op .sub _ _ _, trivial, trivial,
        encodeR_eq (funct7_field h7) rfl rfl (funct3_field h3) rfl (opcode_field ho)⟩
    · exact .inl ⟨.op .sra _ _ _, trivial, trivial,
        encodeR_eq (funct7_field h7) rfl rfl (funct3_field h3) rfl (opcode_field ho)⟩

/-- The instructions without operands. -/
theorem baseDefined_plain (ho : opcode w = Codes.ECALL) (h3 : getFunct3 w = (0b000#3).toNat)
    (hc : getCsr w ∈ [0, 1, 2, 0x102, 0x105, 0x302]) (hr : getRd w = 0 ∧ getRs1 w = 0) :
    BaseDefined T w := by
  have he (csr : BitVec 12) (h : getCsr w = csr.toNat) : encodeI csr 0 0b000 0 0b1110011 = w :=
    encodeI_eq (csr_field h) (rs1_field hr.2) (funct3_field h3) (rd_field hr.1) (opcode_field ho)
  simp only [List.mem_cons, List.not_mem_nil, or_false] at hc
  rcases hc with h | h | h | h | h | h
  · exact .inl ⟨.ecall, trivial, trivial, he _ h⟩
  · exact .inl ⟨.ebreak, trivial, trivial, he _ h⟩
  · exact .inr (.inr (he _ h))
  · exact .inl ⟨.sret, trivial, trivial, he _ h⟩
  · exact .inl ⟨.wfi, trivial, trivial, he _ h⟩
  · exact .inl ⟨.mret, trivial, trivial, he _ h⟩

theorem baseDefined_system (hn : ¬BaseHole T w) (ho : opcode w = Codes.ECALL)
    (h4 : getFunct3 w ≠ 4)
    (h0 : getFunct3 w = 0 → getCsr w ∈ [0, 1, 2, 9, 0x102, 0x105, 0x302] ∨ getFunct7 w = 9) :
    BaseDefined T w := by
  by_cases h3 : getFunct3 w = (0b000#3).toNat
  · have hw (h : getCsr w ∈ [0, 1, 2, 0x102, 0x105, 0x302] ∧ ¬(getRd w = 0 ∧ getRs1 w = 0) ∨
        getCsr w = 9 ∨ getFunct7 w = 9 ∧ getRd w ≠ 0) : False :=
      hn (.inr (.inr (.inr (.inr (.inr (.inr (.inr (.inr ⟨ho, h3, h⟩))))))))
    by_cases hc : getCsr w ∈ [0, 1, 2, 0x102, 0x105, 0x302]
    · exact baseDefined_plain ho h3 hc (by_contra fun hr => hw (.inl ⟨hc, hr⟩))
    · have h9 : getCsr w ≠ 9 := fun h => hw (.inr (.inl h))
      have h7 : getFunct7 w = (0b0001001#7).toNat := by
        refine (h0 h3).resolve_left fun h => ?_
        simp only [List.mem_cons, List.not_mem_nil, or_false] at h hc
        omega
      have hrd : getRd w = (0#5).toNat := by_contra fun h => hw (.inr (.inr ⟨h7, h⟩))
      exact .inl ⟨.sfenceVma _ _, trivial, trivial, encodeR_eq (funct7_field h7) rfl rfl
        (funct3_field h3) (rd_field hrd) (opcode_field ho)⟩
  · obtain ⟨op, hop | hop⟩ := exists_csrOp (getFunct3_lt w) h3 h4
    · exact .inl ⟨.csr op _ _ _, trivial, trivial,
        encodeI_eq rfl rfl (funct3_field hop) rfl (opcode_field ho)⟩
    · exact .inl ⟨.csrImm op _ _ _, trivial, trivial,
        encodeI_eq rfl rfl (funct3_field hop) rfl (opcode_field ho)⟩

theorem baseDefined_opImmW (hn : ¬BaseHole T w) (ho : opcode w = Codes.ADDIW)
    (h3 : getFunct3 w ≤ 1 ∨ getFunct3 w = 5 ∧ funct6 w ∈ [0, 16]) : BaseDefined T w := by
  have hx : T.xlen = 64 := not_wide hn (.inr (.inr (.inr (.inl ⟨ho, h3⟩))))
  have hcases : getFunct3 w = (0b000#3).toNat ∨ getFunct3 w = (0b001#3).toNat ∨
      getFunct3 w = (0b101#3).toNat ∧ funct6 w ∈ [0, 16] := by
    rcases h3 with h3 | h3
    · exact (Nat.le_one_iff_eq_zero_or_eq_one.mp h3).imp id .inl
    · exact .inr (.inr h3)
  rcases hcases with h3 | h3 | ⟨h3, h6⟩
  · exact .inl ⟨.addiw _ _ _, trivial, hx,
      encodeI_eq rfl rfl (funct3_field h3) rfl (opcode_field ho)⟩
  · have h7 : getFunct7 w = (0b0000000#7).toNat := by
      by_contra h7
      exact hn (.inr (.inr (.inr (.inr (.inr (.inl ⟨ho, h3, h7⟩))))))
    exact .inl ⟨.shiftImmW .sll _ _ _, trivial, hx,
      encodeR_eq (funct7_field h7) rfl rfl (funct3_field h3) rfl (opcode_field ho)⟩
  · have hs : getShamt w < 32 := by
      by_contra hs
      exact hn (.inr (.inr (.inr (.inr (.inr (.inr (.inl ⟨ho, h3, h6, not_lt.mp hs⟩)))))))
    have h7 : getFunct7 w = (0b0000000#7).toNat ∨ getFunct7 w = (0b0100000#7).toNat := by
      have h := funct7_eq w
      simp only [List.mem_cons, List.not_mem_nil, or_false] at h6
      show getFunct7 w = 0 ∨ getFunct7 w = 32
      omega
    rcases h7 with h7 | h7
    · exact .inl ⟨.shiftImmW .srl _ _ _, trivial, hx,
        encodeR_eq (funct7_field h7) rfl rfl (funct3_field h3) rfl (opcode_field ho)⟩
    · exact .inl ⟨.shiftImmW .sra _ _ _, trivial, hx,
        encodeR_eq (funct7_field h7) rfl rfl (funct3_field h3) rfl (opcode_field ho)⟩

theorem baseDefined_opW (hn : ¬BaseHole T w) (ho : opcode w = Codes.ADDW)
    (h7 : getFunct7 w ∈ [0, 32]) (h3 : getFunct3 w ∈ [0, 1, 5]) : BaseDefined T w := by
  have hx : T.xlen = 64 := not_wide hn (.inr (.inr (.inr (.inr ⟨ho, h7, h3⟩))))
  have he (op : RegOpW) (hf7 : getFunct7 w = op.funct7.toNat)
      (hf3 : getFunct3 w = op.funct3.toNat) : BaseDefined T w :=
    .inl ⟨.opW op _ _ _, trivial, hx,
      encodeR_eq (funct7_field hf7) rfl rfl (funct3_field hf3) rfl (opcode_field ho)⟩
  simp only [List.mem_cons, List.not_mem_nil, or_false] at h7 h3
  rcases h7 with h7 | h7
  · rcases h3 with h3 | h3 | h3
    · exact he .addw h7 h3
    · exact he .sllw h7 h3
    · exact he .srlw h7 h3
  · rcases h3 with h3 | h3 | h3
    · exact he .subw h7 h3
    · exact absurd (.inr (.inr (.inr (.inr (.inr (.inr (.inr (.inl ⟨ho, h7, h3⟩)))))))) hn
    · exact he .sraw h7 h3

theorem baseDefined_of (hb : BaseWord w) (hn : ¬BaseHole T w) : BaseDefined T w := by
  have hlt := getFunct3_lt w
  unfold BaseWord at hb
  rcases hb with ho | ho | ho | ho | ho | ⟨ho, h2, h3⟩ | ⟨ho, h7⟩ | ⟨ho, h3⟩ | ⟨ho, h5⟩ | ⟨ho, h7⟩ |
    ⟨ho, h4, h0⟩ | ⟨ho, h3⟩ | ⟨ho, h7, h3⟩
  · exact .inl ⟨.lui _ _, trivial, trivial, encodeU_eq (opcode_field ho)⟩
  · exact .inl ⟨.auipc _ _, trivial, trivial, encodeU_eq (opcode_field ho)⟩
  · exact .inl ⟨.jal _ _, trivial, trivial, encodeJ_eq (opcode_field ho)⟩
  · have h3 : getFunct3 w = (0b000#3).toNat := by
      by_contra h3
      exact hn (.inr (.inl ⟨ho, h3⟩))
    exact .inl ⟨.jalr _ _ _, trivial, trivial,
      encodeI_eq rfl rfl (funct3_field h3) rfl (opcode_field ho)⟩
  · have h3 : getFunct3 w = 0 ∨ getFunct3 w = 1 := by
      by_contra h3
      exact hn (.inr (.inr (.inl ⟨ho, by omega⟩)))
    refine .inr (.inl ⟨_, _, _, _, ?_, encodeI_eq rfl rfl rfl rfl (opcode_field ho)⟩)
    rcases h3 with h3 | h3
    · exact .inl (funct3_field h3)
    · exact .inr (funct3_field h3)
  · obtain ⟨op, hop⟩ := exists_branchOp hlt h2 h3
    exact .inl ⟨.branch op _ _ _, trivial, trivial, encodeB_eq (funct3_field hop) (opcode_field ho)⟩
  · obtain ⟨op, hop, hwide⟩ := exists_loadOp hlt h7
    refine .inl ⟨.load op _ _ _, trivial, ?_,
      encodeI_eq rfl rfl (funct3_field hop) rfl (opcode_field ho)⟩
    have hx (h : op = .ld ∨ op = .lwu) : T.xlen = 64 := not_wide hn (.inl ⟨ho, hwide h⟩)
    cases op with
    | ld => exact hx (.inl rfl)
    | lwu => exact hx (.inr rfl)
    | lb | lh | lw | lbu | lhu => trivial
  · obtain ⟨op, hop, hwide⟩ := exists_storeOp h3
    refine .inl ⟨.store op _ _ _, trivial, ?_, encodeS_eq (funct3_field hop) (opcode_field ho)⟩
    have hx (h : op = .sd) : T.xlen = 64 := not_wide hn (.inr (.inl ⟨ho, hwide h⟩))
    cases op with
    | sd => exact hx rfl
    | sb | sh | sw => trivial
  · exact baseDefined_opImm hn ho h5
  · exact baseDefined_op hn ho h7
  · exact baseDefined_system hn ho h4 h0
  · exact baseDefined_opImmW hn ho h3
  · exact baseDefined_opW hn ho h7 h3

theorem not_baseHole_of (h : BaseDefined T w) : ¬BaseHole T w := by
  rintro (⟨hT, hw⟩ | hw)
  · rcases h with ⟨i, hb, hd, rfl⟩ | ⟨imm, rs1, f3, rd, h3, rfl⟩ | rfl
    · rw [hT] at hd
      exact not_wideWord_encode hb hd hw
    · simp [WideWord] at hw
    · exact absurd hw (by decide)
  · rcases h with ⟨i, hb, hd, rfl⟩ | ⟨imm, rs1, f3, rd, h3, rfl⟩ | rfl
    · exact not_wrongField_encode hb hw
    · rcases h3 with rfl | rfl
      · simp [WrongField] at hw
      · simp [WrongField] at hw
    · exact absurd hw (by decide)

/-- The base decoder accepts only instructions of its set exactly outside the table of holes. -/
theorem decode_defined_iff :
    (BaseIsa.decode w ≠ .OP_ERROR → BaseDefined T w) ↔ ¬BaseHole T w := by
  constructor
  · intro h hw
    have hb : BaseWord w := hw.elim (fun hw => baseWord_of_wide hw.2) baseWord_of_wrong
    exact not_baseHole_of (h (decode_ne_error_iff.mpr hb)) hw
  · intro hn hd
    exact baseDefined_of (decode_ne_error_iff.mp hd) hn

end RiscvTlm
