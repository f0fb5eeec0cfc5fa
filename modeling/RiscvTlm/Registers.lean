import Mathlib.Data.BitVec
import Mathlib.Data.Finset.Basic
import Mathlib.Tactic.Common

/-!
# The register file

`Registers T` is the register bank, the program counter and the CSR map of the source's
`Registers<T>` class. The bank carries the fact that `x0` holds zero, which `setValue` keeps. The
CSR map stores `unsigned int` values for both widths, so `setCSR` truncates to 32 bits and `getCSR`
zero-extends.
-/

namespace RiscvTlm

/-- The two instantiations of the template classes. -/
inductive CpuType
  | RV32
  | RV64
  deriving DecidableEq, Repr

/-- The bits of the template parameter, `std::uint32_t` or `std::uint64_t`. -/
abbrev CpuType.xlen : CpuType → ℕ
  | .RV32 => 32
  | .RV64 => 64

theorem CpuType.le_xlen (T : CpuType) : 32 ≤ T.xlen := by cases T <;> decide

theorem CpuType.xlen_le (T : CpuType) : T.xlen ≤ 64 := by cases T <;> decide

@[simp] theorem CpuType.setWidth_setWidth (T : CpuType) (x : BitVec 32) :
    (x.setWidth T.xlen).setWidth 32 = x := by
  rw [BitVec.setWidth_setWidth_of_le x T.le_xlen, BitVec.setWidth_eq]

@[simp] theorem CpuType.setWidth_signExtend (T : CpuType) (x : BitVec 32) :
    (x.signExtend T.xlen).setWidth 32 = x := by
  apply BitVec.eq_of_getLsbD_eq
  intro i hi
  rw [BitVec.getLsbD_setWidth, BitVec.getLsbD_signExtend]
  simp [hi, Nat.lt_of_lt_of_le hi T.le_xlen]

/-- What the simulation environment supplies: the simulated time, the rounding of its conversion
to `double` and back, and the contents of an uninitialised local variable. -/
structure Host where
  timeStamp : BitVec 64
  toDouble : BitVec 64 → BitVec 64
  uninit : BitVec 64 → BitVec 32

/-! ## CSR numbers and bits -/

namespace Csr

@[match_pattern] abbrev MSTATUS : ℕ := 0x300
@[match_pattern] abbrev MISA : ℕ := 0x301
@[match_pattern] abbrev MIE : ℕ := 0x304
@[match_pattern] abbrev MTVEC : ℕ := 0x305
@[match_pattern] abbrev MEPC : ℕ := 0x341
@[match_pattern] abbrev MCAUSE : ℕ := 0x342
@[match_pattern] abbrev MTVAL : ℕ := 0x343
@[match_pattern] abbrev MIP : ℕ := 0x344
@[match_pattern] abbrev SEPC : ℕ := 0x141
@[match_pattern] abbrev MCYCLE : ℕ := 0xB00
@[match_pattern] abbrev MCYCLEH : ℕ := 0xB80
@[match_pattern] abbrev CYCLE : ℕ := 0xC00
@[match_pattern] abbrev TIME : ℕ := 0xC01
@[match_pattern] abbrev CYCLEH : ℕ := 0xC80
@[match_pattern] abbrev TIMEH : ℕ := 0xC81

end Csr

def MISA_A_EXTENSION : BitVec 32 := 1#32 <<< 0
def MISA_C_EXTENSION : BitVec 32 := 1#32 <<< 2
def MISA_I_BASE : BitVec 32 := 1#32 <<< 8
def MISA_M_EXTENSION : BitVec 32 := 1#32 <<< 12
def MISA_MXL : BitVec 32 := 1#32 <<< 30

/-- `MSTATUS_MIE`, bit 3. -/
abbrev MSTATUS_MIE (w : ℕ) : BitVec w := 1#w <<< 3

/-- `MSTATUS_MPIE`, bit 7. -/
abbrev MSTATUS_MPIE (w : ℕ) : BitVec w := 1#w <<< 7

/-- `MIP_MEIP`, bit 11. -/
abbrev MIP_MEIP (w : ℕ) : BitVec w := 1#w <<< 11

/-! ## The register file -/

/-- The register bank, the program counter and the CSR map. -/
@[ext]
structure Registers (T : CpuType) where
  registerBank : Fin 32 → BitVec T.xlen
  registerPC : BitVec T.xlen
  csr : ℕ → BitVec 32
  zero : registerBank 0 = 0

namespace Registers

variable {T : CpuType}

/-- Writes to `x0` and to numbers past the bank are dropped. -/
def setValue (regs : Registers T) (regNum : ℕ) (value : BitVec T.xlen) : Registers T :=
  if h : regNum ≠ 0 ∧ regNum < 32 then
    { regs with
      registerBank := Function.update regs.registerBank ⟨regNum, h.2⟩ value
      zero := by
        rw [Function.update_of_ne _ _ _, regs.zero]
        exact fun e => h.1 (Fin.ext_iff.mp e).symm }
  else regs

/-- A number past the bank reads as the largest value. -/
def getValue (regs : Registers T) (regNum : ℕ) : BitVec T.xlen :=
  if h : regNum < 32 then regs.registerBank ⟨regNum, h⟩ else BitVec.allOnes T.xlen

def getPC (regs : Registers T) : BitVec T.xlen := regs.registerPC

def setPC (regs : Registers T) (newPc : BitVec T.xlen) : Registers T :=
  { regs with registerPC := newPc }

def incPC (regs : Registers T) : Registers T :=
  { regs with registerPC := regs.registerPC + 4 }

def incPCby2 (regs : Registers T) : Registers T :=
  { regs with registerPC := regs.registerPC + 2 }

/-- The counters read the simulated time, every other CSR reads the map. -/
def getCSR (regs : Registers T) (host : Host) : ℕ → BitVec T.xlen
  | Csr.CYCLE | Csr.MCYCLE | Csr.TIME =>
    (host.toDouble host.timeStamp &&& 0x00000000FFFFFFFF#64).setWidth T.xlen
  | Csr.CYCLEH | Csr.MCYCLEH | Csr.TIMEH =>
    ((host.toDouble host.timeStamp >>> 32 &&& 0x00000000FFFFFFFF#64).setWidth 32).setWidth T.xlen
  | csr => (regs.csr csr).setWidth T.xlen

/-- `MISA` is not writable. -/
def setCSR (regs : Registers T) (csr : ℕ) (value : BitVec T.xlen) : Registers T :=
  if csr ≠ Csr.MISA then { regs with csr := Function.update regs.csr csr (value.setWidth 32) }
  else regs

/-- The CSR values a reset leaves. -/
def initCSR (T : CpuType) (csr : ℕ) : BitVec 32 :=
  if csr = Csr.MISA then
    match T with
    | .RV32 => MISA_MXL ||| MISA_M_EXTENSION ||| MISA_C_EXTENSION ||| MISA_A_EXTENSION |||
        MISA_I_BASE
    | .RV64 => ((2#64 <<< 30).setWidth 32) ||| MISA_M_EXTENSION ||| MISA_C_EXTENSION |||
        MISA_A_EXTENSION ||| MISA_I_BASE
  else if csr = Csr.MSTATUS then MISA_MXL
  else 0

/-! ## Reading what was written -/

@[simp] theorem getValue_zero (regs : Registers T) : regs.getValue 0 = 0 := by
  rw [getValue, dif_pos (by decide)]
  exact regs.zero

theorem getValue_setValue (regs : Registers T) (n m : ℕ) (v : BitVec T.xlen) (hm : m < 32) :
    (regs.setValue n v).getValue m = if m = n ∧ n ≠ 0 then v else regs.getValue m := by
  unfold setValue getValue
  by_cases h : n ≠ 0 ∧ n < 32
  · rw [dif_pos h, dif_pos hm, dif_pos hm]
    by_cases e : m = n
    · subst e
      simp [h.1]
    · rw [if_neg (fun c => e c.1)]
      exact Function.update_of_ne (fun c => e (Fin.ext_iff.mp c)) _ _
  · rw [dif_neg h, if_neg]
    rintro ⟨rfl, hn⟩
    exact h ⟨hn, hm⟩

theorem getValue_setValue_ne (regs : Registers T) {n m : ℕ} (v : BitVec T.xlen) (hm : m < 32)
    (h : m ≠ n) : (regs.setValue n v).getValue m = regs.getValue m := by
  rw [getValue_setValue _ _ _ _ hm, if_neg (fun c => h c.1)]

@[simp] theorem setValue_zero (regs : Registers T) (v : BitVec T.xlen) : regs.setValue 0 v = regs :=
  dif_neg fun h => h.1 rfl

theorem setValue_setValue (regs : Registers T) (n : ℕ) (u v : BitVec T.xlen) :
    (regs.setValue n u).setValue n v = regs.setValue n v := by
  unfold setValue
  split <;> simp

@[simp] theorem setValue_registerPC (regs : Registers T) (n : ℕ) (v : BitVec T.xlen) :
    (regs.setValue n v).registerPC = regs.registerPC := by
  unfold setValue
  split <;> rfl

@[simp] theorem setValue_csr (regs : Registers T) (n : ℕ) (v : BitVec T.xlen) :
    (regs.setValue n v).csr = regs.csr := by
  unfold setValue
  split <;> rfl

section Frame

variable (regs : Registers T) (n c c' : ℕ) (v : BitVec T.xlen)

@[simp] theorem getPC_eq : regs.getPC = regs.registerPC := rfl

@[simp] theorem setPC_registerPC : (regs.setPC v).registerPC = v := rfl

@[simp] theorem setPC_csr : (regs.setPC v).csr = regs.csr := rfl

@[simp] theorem getValue_setPC : (regs.setPC v).getValue n = regs.getValue n := rfl

@[simp] theorem incPC_registerPC : regs.incPC.registerPC = regs.registerPC + 4 := rfl

@[simp] theorem incPC_csr : regs.incPC.csr = regs.csr := rfl

@[simp] theorem getValue_incPC : regs.incPC.getValue n = regs.getValue n := rfl

@[simp] theorem incPCby2_registerPC : regs.incPCby2.registerPC = regs.registerPC + 2 := rfl

@[simp] theorem incPCby2_csr : regs.incPCby2.csr = regs.csr := rfl

@[simp] theorem getValue_incPCby2 : regs.incPCby2.getValue n = regs.getValue n := rfl

@[simp] theorem setCSR_registerPC : (regs.setCSR c v).registerPC = regs.registerPC := by
  unfold setCSR
  split <;> rfl

@[simp] theorem getValue_setCSR : (regs.setCSR c v).getValue n = regs.getValue n := by
  unfold setCSR
  split <;> rfl

theorem setCSR_csr_apply : (regs.setCSR c v).csr c' =
    if c' = c ∧ c ≠ Csr.MISA then v.setWidth 32 else regs.csr c' := by
  by_cases h : c ≠ Csr.MISA
  · simp [setCSR, h, Function.update_apply]
  · simp [setCSR, h]

theorem setCSR_csr_ne (h : c' ≠ c) : (regs.setCSR c v).csr c' = regs.csr c' := by
  unfold setCSR
  split
  · exact Function.update_of_ne h _ _
  · rfl

end Frame

end Registers

end RiscvTlm
