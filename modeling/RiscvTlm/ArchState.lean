import RiscvTlm.DataAccess
import RiscvTlm.Isa.Semantics

/-!
# The architectural state

What the instruction set sees of a system: the registers by their five-bit numbers, the program
counter and the bytes of the memory array. Register writes and PC updates of the code are those of
the instruction set.
-/

namespace RiscvTlm

open Isa

variable {T : CpuType} (s : System T)

/-- The registers as the instruction set numbers them. -/
def registers (r : Reg) : BitVec T.xlen := s.regs.getValue r.toNat

/-- The state of the hart. -/
def archState : Isa.State T.xlen where
  x := registers s
  pc := s.regs.registerPC
  mem := s.mem
  zero := Registers.getValue_zero s.regs

@[simp] theorem archState_x : (archState s).x = registers s := rfl

@[simp] theorem archState_pc : (archState s).pc = s.regs.registerPC := rfl

/-- A register write of the code. -/
@[simp] theorem archState_setReg (rd : Reg) (v : BitVec T.xlen) :
    archState (s.setReg rd.toNat v) = (archState s).set rd v := by
  have h0 : rd.toNat ≠ 0 ↔ rd ≠ 0 := not_congr (BitVec.toNat_inj (y := 0))
  refine State.ext (funext fun r => ?_) ?_ ?_
  · rw [State.set_x, archState_x, registers, System.setReg,
      Registers.getValue_setValue _ _ _ _ r.isLt]
    simp only [BitVec.toNat_inj, h0]
    rfl
  · rw [State.set_pc]
    exact Registers.setValue_registerPC _ _ _
  · rw [State.set_mem]
    rfl

/-- The state with another program counter. -/
def System.setPC (pc : BitVec T.xlen) : System T := { s with regs := s.regs.setPC pc }

/-- A PC update of the code. -/
@[simp] theorem archState_setPC (pc : BitVec T.xlen) :
    archState (s.setPC pc) = (archState s).setPC pc := rfl

@[simp] theorem archState_incPC :
    archState { s with regs := s.regs.incPC } = (archState s).next := rfl

end RiscvTlm
