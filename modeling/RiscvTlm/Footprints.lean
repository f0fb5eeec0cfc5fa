import RiscvTlm.Cpu

/-!
# What a decoded word may do

The changes that the execution of a decoded word may make, as functions of the word: the registers
it writes, whether it stores, whether it touches the reservations, the CSR it addresses, the
exception it raises and whether it calls `sc_stop`. The offsets of branches and jumps are even, so
that an even PC stays even but for the words that load it from a CSR.
-/

namespace RiscvTlm

open ExtensionBase

variable {T : CpuType} {anyPC : Prop}

/-! ## Changes -/

/-- The base operations with a destination. -/
def BaseIsa.hasRd : OpCodes → Bool
  | .OP_BEQ | .OP_BNE | .OP_BLT | .OP_BGE | .OP_BLTU | .OP_BGEU | .OP_SB | .OP_SH | .OP_SW | .OP_SD
  | .OP_FENCE | .OP_ECALL | .OP_EBREAK | .OP_URET | .OP_SRET | .OP_MRET | .OP_WFI | .OP_SFENCE
  | .OP_ERROR => false
  | _ => true

/-- The destination of a compressed operation. -/
def CExtension.dest (w : BitVec 32) : OpCCodes → Option ℕ
  | .OP_C_ADDI4SPN | .OP_C_LW | .OP_C_LD => some (getRdp w)
  | .OP_C_ADDI | .OP_C_ADDIW | .OP_C_LI | .OP_C_ADDI16SP | .OP_C_LWSP | .OP_C_LDSP | .OP_C_MV =>
    some (getRd w)
  | .OP_C_SLLI | .OP_C_ADD => some (getRs1 w)
  | .OP_C_SRLI | .OP_C_SRAI | .OP_C_ANDI | .OP_C_SUB | .OP_C_XOR | .OP_C_OR | .OP_C_AND
  | .OP_C_SUBW | .OP_C_ADDW => some (getRs1p w)
  | .OP_C_JAL | .OP_C_JALR => some 1
  | _ => none

/-- The destination of a decoded word. -/
def dest (w : BitVec 32) : Decoded → Option ℕ
  | .base code => if BaseIsa.hasRd code then some (getRd w) else none
  | .c code => CExtension.dest w code
  | .m .OP_M_ERROR | .a .OP_A_ERROR | .none => none
  | .m _ | .a _ => some (getRd w)

/-- The registers that a decoded word writes: `AMOSWAP` writes `rs2` besides its destination. -/
def written (w : BitVec 32) : Decoded → List ℕ
  | .a .OP_A_AMOSWAP => [getRd w, getRs2 w]
  | d => (dest w d).toList

/-- The decoded words that write to the memory. -/
def storing : Decoded → Bool
  | .base .OP_SB | .base .OP_SH | .base .OP_SW | .base .OP_SD => true
  | .c .OP_C_SW | .c .OP_C_SWSP | .c .OP_C_SD | .c .OP_C_SDSP | .c .OP_C_FSW => true
  | .a .OP_A_LR | .a .OP_A_ERROR => false
  | .a _ => true
  | _ => false

/-- The decoded words that touch the reservations. -/
def reserving (d : Decoded) : Bool := d ∈ [.a .OP_A_LR, .a .OP_A_SC]

/-- The exception a decoded word raises. -/
def raiseOf (T : CpuType) (w : BitVec 32) : Decoded → Option ExceptionCause
  | .base .OP_SLLI =>
    if T = .RV32 ∧ BaseIsa.getShamt w ≥ 0x20 then some .ILLEGAL_INSTRUCTION else none
  | .base .OP_SLLIW | .base .OP_SRLIW =>
    if BaseIsa.getShamt w ≥ 0x20 then some .ILLEGAL_INSTRUCTION else none
  | .base .OP_ECALL => some .CALL_FROM_M_MODE
  | .base .OP_EBREAK | .c .OP_C_EBREAK => some .BREAK
  | .c .OP_C_ADDI4SPN =>
    if (CExtension.getImmADDI4SPN w).setWidth T.xlen = 0 then some .ILLEGAL_INSTRUCTION else none
  | .a .OP_A_LR => if ExtensionBase.getRs2 w ≠ 0 then some .ILLEGAL_INSTRUCTION else none
  | _ => none

/-- The CSR that a CSR instruction or `MRET` addresses. -/
def csrAddressed (w : BitVec 32) : Decoded → Option ℕ
  | .base .OP_CSRRW | .base .OP_CSRRS | .base .OP_CSRRC | .base .OP_CSRRWI | .base .OP_CSRRSI
  | .base .OP_CSRRCI => some (BaseIsa.getCsr w)
  | .base .OP_MRET => some Csr.MSTATUS
  | _ => none

/-- The decoded words whose execution calls `sc_stop` in every state. -/
def stopping (T : CpuType) (w : BitVec 32) : Decoded → Bool
  | .base .OP_EBREAK | .base .OP_URET | .base .OP_ERROR => true
  | .base .OP_SLLI => T = .RV32 ∧ BaseIsa.getShamt w ≥ 0x20
  | .base .OP_SLLIW | .base .OP_SRLIW => BaseIsa.getShamt w ≥ 0x20
  | .c .OP_C_EBREAK | .c .OP_C_FLD | .c .OP_C_FLW | .c .OP_C_FSD | .c .OP_C_NOP | .c .OP_C_LUI
  | .c .OP_C_FLDSP | .c .OP_C_FSDSP | .c .OP_C_FSWSP | .c .OP_C_ERROR => true
  | .m .OP_M_ERROR | .a .OP_A_ERROR | .none => true
  | _ => false

/-- The words that may be executed when only even PCs are allowed: they neither raise an exception
nor return from one. -/
def Staying (T : CpuType) (w : BitVec 32) (d : Decoded) : Prop :=
  raiseOf T w d = none ∧ d ≠ .base .OP_MRET ∧ d ≠ .base .OP_SRET

/-! ## Program counters -/

/-- A PC that is admitted: any, or any even one. -/
def Allowed (anyPC : Prop) (pc : BitVec T.xlen) : Prop := anyPC ∨ pc.getLsbD 0 = false

theorem getLsbD_zero_add {w : ℕ} (x y : BitVec w) :
    (x + y).getLsbD 0 = (x.getLsbD 0 ^^ y.getLsbD 0) := by
  rcases Nat.eq_zero_or_pos w with rfl | hw
  · simp [BitVec.getLsbD_of_ge]
  · simp [BitVec.getLsbD_add hw]

namespace Allowed

variable {pc x : BitVec T.xlen} {y : BitVec 32}

theorem of_even (h : pc.getLsbD 0 = false) : Allowed anyPC pc := .inr h

theorem add (h : Allowed anyPC pc) (hx : x.getLsbD 0 = false) : Allowed anyPC (pc + x) := by
  refine h.imp id fun h => ?_
  rw [getLsbD_zero_add, h, hx]
  rfl

/-- The PCs that pass through a 32-bit variable. -/
theorem narrow_add (h : Allowed anyPC pc) (hy : y.getLsbD 0 = false) :
    Allowed anyPC ((pc.setWidth 32 + y).setWidth T.xlen) := by
  refine h.imp id fun h => ?_
  have hw : 0 < T.xlen := by cases T <;> decide
  rw [BitVec.getLsbD_setWidth, getLsbD_zero_add, BitVec.getLsbD_setWidth, h, hy]
  simp

theorem next (h : Allowed anyPC pc) : Allowed anyPC (pc + 4) :=
  h.add (by cases T <;> rfl)

theorem next2 (h : Allowed anyPC pc) : Allowed anyPC (pc + 2) :=
  h.add (by cases T <;> rfl)

end Allowed

/-! ## Even offsets -/

theorem getLsbD_zero_shift {w v n : ℕ} (x : BitVec w) (hn : 0 < n) :
    ((x <<< n).setWidth v).getLsbD 0 = false := by
  simp [hn]

theorem getLsbD_zero_or {w : ℕ} {x y : BitVec w} (hx : x.getLsbD 0 = false)
    (hy : y.getLsbD 0 = false) : (x ||| y).getLsbD 0 = false := by
  rw [BitVec.getLsbD_or, hx, hy]
  rfl

namespace BaseIsa

variable (m : BitVec 32)

theorem getShamtSlli_lt : ExtensionBase.getShamtSlli m < 64 := by
  rw [ExtensionBase.getShamtSlli, BitField.toNat_range _ (by decide)]
  omega

theorem extend12_even {x : BitVec T.xlen} (hx : x.getLsbD 0 = false) :
    (extend12 m T x).getLsbD 0 = false := by
  cases T with
  | RV32 =>
    unfold extend12
    split
    · exact getLsbD_zero_or hx rfl
    · exact hx
  | RV64 =>
    unfold extend12
    split
    · exact getLsbD_zero_or (getLsbD_zero_or hx rfl) rfl
    · exact hx

theorem getImmB_even : (getImmB m T).getLsbD 0 = false := by
  refine extend12_even m (getLsbD_zero_or (getLsbD_zero_or (getLsbD_zero_or ?_ ?_) ?_) ?_)
  all_goals exact getLsbD_zero_shift _ (by decide)

theorem getImmJ_even : (getImmJ m T).getLsbD 0 = false := by
  have hx : ((bit m 31 <<< 20).setWidth T.xlen ||| (range m 19 12 <<< 12).setWidth T.xlen |||
      (bit m 20 <<< 11).setWidth T.xlen ||| (range m 30 21 <<< 1).setWidth T.xlen).getLsbD 0 =
      false := by
    refine getLsbD_zero_or (getLsbD_zero_or (getLsbD_zero_or ?_ ?_) ?_) ?_
    all_goals exact getLsbD_zero_shift _ (by decide)
  unfold getImmJ
  dsimp only
  split
  · refine getLsbD_zero_or hx ?_
    cases T <;> rfl
  · exact hx

end BaseIsa

namespace CExtension

variable (m : BitVec 32)

theorem field_even (hi lo : ℕ) {pos : ℕ} (h : 0 < pos) : (field m hi lo pos).getLsbD 0 = false :=
  getLsbD_zero_shift _ h

theorem extendSign_even {aux : BitVec 32} (ones : BitVec 32) {pos : ℕ} (hp : 0 < pos)
    (h : aux.getLsbD 0 = false) : (extendSign m aux ones pos).getLsbD 0 = false := by
  unfold extendSign
  split
  · refine getLsbD_zero_or h ?_
    rw [BitVec.getLsbD_shiftLeft]
    simp [hp]
  · exact h

theorem getImmJ_even : (getImmJ m).getLsbD 0 = false := by
  unfold getImmJ
  refine extendSign_even m _ (by decide) ?_
  simp only [BitVec.getLsbD_or, field_even m _ _ (Nat.succ_pos _), Bool.or_self]

theorem getImmCB_even : ((getImmCB m).signExtend T.xlen).getLsbD 0 = false := by
  have h : (getImmCB m).getLsbD 0 = false := by
    unfold getImmCB
    refine extendSign_even m _ (by decide) ?_
    simp only [BitVec.getLsbD_or, field_even m _ _ (Nat.succ_pos _), Bool.or_self]
  have hw : 0 < T.xlen := by cases T <;> decide
  rw [BitVec.getLsbD_signExtend, if_pos (by decide), h, Bool.and_false]

end CExtension

end RiscvTlm
