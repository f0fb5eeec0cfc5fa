import RiscvTlm.Isa.Compressed

/-!
# What an instruction may change

The footprint of an instruction: its destination register, and the bytes at its effective address
if it is a store or an atomic that writes. A compressed instruction has the footprint of its
expansion.
-/

namespace Isa

variable {n : ℕ}

/-- The number of bytes a store writes. -/
def StoreOp.width : StoreOp → ℕ
  | .sb => 1
  | .sh => 2
  | .sw => 4
  | .sd => 8

/-- A destination, and an effective address with the number of bytes written there. -/
structure Footprint (n : ℕ) where
  rd : Option Reg
  bytes : Option (BitVec n × ℕ)

/-- Byte `i` is one of the bytes written; addresses wrap around. -/
def Footprint.Covers (fp : Footprint n) (i : ℕ) : Prop :=
  ∃ a size, fp.bytes = some (a, size) ∧ ∃ k < size, (a + BitVec.ofNat n k).toNat = i

/-- The footprint of an instruction in a state with the registers `x`. -/
def footprint (x : Reg → BitVec n) : Instr → Footprint n
  | .lui rd _ | .auipc rd _ | .jal rd _ | .jalr rd _ _ | .load _ rd _ _ | .opImm _ rd _ _
  | .shiftImm _ rd _ _ | .op _ rd _ _ | .addiw rd _ _ | .shiftImmW _ rd _ _ | .opW _ rd _ _
  | .mul _ rd _ _ | .mulW _ rd _ _ | .lrW _ rd _ | .csr _ rd _ _ | .csrImm _ rd _ _ =>
    ⟨some rd, none⟩
  | .store op rs1 _ imm => ⟨none, some (x rs1 + imm.signExtend n, op.width)⟩
  | .scW _ rd rs1 _ | .amoW _ _ rd rs1 _ => ⟨some rd, some (x rs1, 4)⟩
  | .branch .. | .fence .. | .fenceI | .ecall | .ebreak | .mret | .sret | .wfi | .sfenceVma .. =>
    ⟨none, none⟩

end Isa
