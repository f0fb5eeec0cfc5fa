import RiscvTlm.Isa.Footprint
import RiscvTlm.Lib.ByteMemory

/-!
# The meaning of the base instructions

The state of a hart and the step of each instruction of RV32I and RV64I outside `FENCE` and
`SYSTEM`, as the manual defines them. Registers have `n` bits, 32 or 64; the memory is a sequence
of bytes, little-endian.
-/

namespace Isa

open ByteMemory

variable {n : ℕ}

/-! ## The state of a hart -/

/-- The registers, the program counter and the memory; `x0` is zero. -/
@[ext]
structure State (n : ℕ) where
  x : Reg → BitVec n
  pc : BitVec n
  mem : Mem
  zero : x 0 = 0

namespace State

/-- Writes to `x0` have no effect. -/
def set (s : State n) (rd : Reg) (v : BitVec n) : State n :=
  if h : rd = 0 then s
  else
    { s with
      x := Function.update s.x rd v
      zero := by rw [Function.update_of_ne (Ne.symm h), s.zero] }

def setPC (s : State n) (pc : BitVec n) : State n := { s with pc := pc }

/-- On to the instruction after a 32-bit one. -/
def next (s : State n) : State n := s.setPC (s.pc + 4)

def setMem (s : State n) (mem : Mem) : State n := { s with mem := mem }

@[simp] theorem set_zero (s : State n) (v : BitVec n) : s.set 0 v = s := dif_pos rfl

theorem set_x (s : State n) (rd r : Reg) (v : BitVec n) :
    (s.set rd v).x r = if r = rd ∧ rd ≠ 0 then v else s.x r := by
  unfold set
  by_cases h : rd = 0
  · rw [dif_pos h, if_neg fun hc => hc.2 h]
  · rw [dif_neg h]
    by_cases hr : r = rd
    · rw [if_pos ⟨hr, h⟩, hr]
      exact Function.update_self _ _ _
    · rw [if_neg fun hc => hr hc.1]
      exact Function.update_of_ne hr _ _

@[simp] theorem set_pc (s : State n) (rd : Reg) (v : BitVec n) : (s.set rd v).pc = s.pc := by
  unfold set
  split <;> rfl

/-- A jump may write its link before or after the PC. -/
theorem set_setPC (s : State n) (rd : Reg) (v pc : BitVec n) :
    (s.setPC pc).set rd v = (s.set rd v).setPC pc := by
  unfold set
  split <;> rfl

@[simp] theorem set_mem (s : State n) (rd : Reg) (v : BitVec n) : (s.set rd v).mem = s.mem := by
  unfold set
  split <;> rfl

end State

/-! ## Operations -/

/-- Whether a branch is taken. -/
def BranchOp.taken (a b : BitVec n) : BranchOp → Bool
  | .beq => a = b
  | .bne => a ≠ b
  | .blt => a.toInt < b.toInt
  | .bge => b.toInt ≤ a.toInt
  | .bltu => a.toNat < b.toNat
  | .bgeu => b.toNat ≤ a.toNat

/-- The number of bytes a load reads. -/
def LoadOp.width : LoadOp → ℕ
  | .lb | .lbu => 1
  | .lh | .lhu => 2
  | .lw | .lwu => 4
  | .ld => 8

/-- The value loaded from the address `a`, extended with its sign or with zeros. -/
def LoadOp.value (mem : Mem) (a : ℕ) : LoadOp → BitVec n
  | .lb => (read 8 mem a 1).signExtend n
  | .lh => (read 16 mem a 2).signExtend n
  | .lw => (read 32 mem a 4).signExtend n
  | .ld => (read 64 mem a 8).signExtend n
  | .lbu => (read 8 mem a 1).setWidth n
  | .lhu => (read 16 mem a 2).setWidth n
  | .lwu => (read 32 mem a 4).setWidth n

def ImmOp.eval (a b : BitVec n) : ImmOp → BitVec n
  | .addi => a + b
  | .slti => if a.toInt < b.toInt then 1 else 0
  | .sltiu => if a.toNat < b.toNat then 1 else 0
  | .xori => a ^^^ b
  | .ori => a ||| b
  | .andi => a &&& b

/-- A shift by `k`. -/
def ShiftOp.eval (a : BitVec n) (k : ℕ) : ShiftOp → BitVec n
  | .sll => a <<< k
  | .srl => a >>> k
  | .sra => a.sshiftRight k

/-- The amount of a shift is the low five bits of the register, or six of 64. -/
def RegOp.eval (a b : BitVec n) : RegOp → BitVec n
  | .add => a + b
  | .sub => a - b
  | .sll => a <<< (b.toNat % n)
  | .slt => if a.toInt < b.toInt then 1 else 0
  | .sltu => if a.toNat < b.toNat then 1 else 0
  | .xor => a ^^^ b
  | .srl => a >>> (b.toNat % n)
  | .sra => a.sshiftRight (b.toNat % n)
  | .or => a ||| b
  | .and => a &&& b

/-- The word operations, on the low words of the registers. -/
def RegOpW.eval (a b : BitVec 32) : RegOpW → BitVec 32
  | .addw => a + b
  | .subw => a - b
  | .sllw => a <<< (b.toNat % 32)
  | .srlw => a >>> (b.toNat % 32)
  | .sraw => a.sshiftRight (b.toNat % 32)

/-- The amount of a shift instruction. -/
def shiftAmount (x : Reg → BitVec n) : Instr → Option ℕ
  | .shiftImm _ _ _ shamt => some shamt.toNat
  | .shiftImmW _ _ _ shamt => some shamt.toNat
  | .op .sll _ _ rs2 | .op .srl _ _ rs2 | .op .sra _ _ rs2 => some ((x rs2).toNat % n)
  | .opW .sllw _ _ rs2 | .opW .srlw _ _ rs2 | .opW .sraw _ _ rs2 => some ((x rs2).toNat % 32)
  | _ => none

/-! ## Steps -/

/-- The base instructions without `FENCE` and `SYSTEM`. -/
def isBase : Instr → Bool
  | .lui .. | .auipc .. | .jal .. | .jalr .. | .branch .. | .load .. | .store .. | .opImm ..
  | .shiftImm .. | .op .. | .addiw .. | .shiftImmW .. | .opW .. => true
  | _ => false

/-- The address and the number of bytes of a data access. -/
def access (x : Reg → BitVec n) : Instr → Option (BitVec n × ℕ)
  | .load op _ rs1 imm => some (x rs1 + imm.signExtend n, op.width)
  | .store op rs1 _ imm => some (x rs1 + imm.signExtend n, op.width)
  | _ => none

/-- The result of a word operation is extended with its sign. -/
def State.setWord (s : State n) (rd : Reg) (v : BitVec 32) : State n := s.set rd (v.signExtend n)

/-- The low word of a register. -/
def State.word (s : State n) (r : Reg) : BitVec 32 := (s.x r).setWidth 32

/-- The step of a base instruction. -/
def step (s : State n) : Instr → Option (State n)
  | .lui rd imm => some (s.set rd (upperImm n imm)).next
  | .auipc rd imm => some (s.set rd (s.pc + upperImm n imm)).next
  | .jal rd offset => some ((s.set rd (s.pc + 4)).setPC (s.pc + jumpOffset n offset))
  | .jalr rd rs1 imm =>
    some ((s.set rd (s.pc + 4)).setPC ((s.x rs1 + imm.signExtend n) &&& ~~~1#n))
  | .branch op rs1 rs2 offset =>
    some (if op.taken (s.x rs1) (s.x rs2) then s.setPC (s.pc + branchOffset n offset) else s.next)
  | .load op rd rs1 imm =>
    some (s.set rd (op.value s.mem (s.x rs1 + imm.signExtend n).toNat)).next
  | .store op rs1 rs2 imm =>
    some (s.setMem ((Write.ofNum (s.x rs1 + imm.signExtend n).toNat op.width (s.x rs2)).apply
      s.mem)).next
  | .opImm op rd rs1 imm => some (s.set rd (op.eval (s.x rs1) (imm.signExtend n))).next
  | .shiftImm op rd rs1 shamt => some (s.set rd (op.eval (s.x rs1) shamt.toNat)).next
  | .op op rd rs1 rs2 => some (s.set rd (op.eval (s.x rs1) (s.x rs2))).next
  | .addiw rd rs1 imm => some (s.setWord rd (s.word rs1 + imm.signExtend 32)).next
  | .shiftImmW op rd rs1 shamt => some (s.setWord rd (op.eval (s.word rs1) shamt.toNat)).next
  | .opW op rd rs1 rs2 => some (s.setWord rd (op.eval (s.word rs1) (s.word rs2))).next
  | _ => none

/-- The step is defined for the base instructions. -/
theorem step_isSome (s : State n) (i : Instr) : (step s i).isSome = isBase i := by
  cases i <;> rfl

end Isa
