import RiscvTlm.Isa.Compressed
import RiscvTlm.Isa.Multiply
import RiscvTlm.Isa.Semantics

/-!
# The machine of the manual

A hart that runs the program in its memory. `exec` extends the step of the base instructions by
`FENCE`, the M extension and the read-modify-write instructions of the A extension; a compressed
instruction is two bytes long and otherwise does what its expansion does. `Machine.next s f` is the
step from `s` when the encoding of `f` stands at the PC. Fences order nothing on a single hart, and
a misaligned read-modify-write is not defined.
-/

namespace Isa

open ByteMemory

variable {n : ℕ}

/-! ## Instructions of four bytes -/

/-- The new word of a read-modify-write, from the old one and the operand. -/
def AmoOp.eval (old operand : BitVec 32) : AmoOp → BitVec 32
  | .swap => operand
  | .add => old + operand
  | .xor => old ^^^ operand
  | .and => old &&& operand
  | .or => old ||| operand
  | .min => if old.toInt < operand.toInt then old else operand
  | .max => if operand.toInt < old.toInt then old else operand
  | .minu => if old.toNat < operand.toNat then old else operand
  | .maxu => if operand.toNat < old.toNat then old else operand

/-- The word at the address in a register. -/
def State.wordAt (s : State n) (r : Reg) : BitVec 32 := read 32 s.mem (s.x r).toNat 4

/-- The step of an instruction. -/
def exec (s : State n) : Instr → Option (State n)
  | .mul op rd rs1 rs2 => some (s.set rd (op.eval (s.x rs1) (s.x rs2))).next
  | .mulW op rd rs1 rs2 =>
    some (s.setWord rd (op.narrow.eval (s.word rs1) (s.word rs2))).next
  | .amoW op _ rd rs1 rs2 =>
    if (s.x rs1).toNat % 4 = 0 then
      some ((s.setWord rd (s.wordAt rs1)).setMem ((Write.ofNum (s.x rs1).toNat 4
        (op.eval (s.wordAt rs1) (s.word rs2))).apply s.mem)).next
    else none
  | .fence .. => some s.next
  | i => step s i

/-- The address and the number of bytes of a data access. -/
def dataAccess (x : Reg → BitVec n) : Instr → Option (BitVec n × ℕ)
  | .amoW _ _ _ rs1 _ => some (x rs1, 4)
  | i => access x i

theorem exec_of_isBase {i : Instr} (h : isBase i = true) (s : State n) : exec s i = step s i := by
  cases i <;> first | rfl | cases h

/-! ## Compressed instructions -/

/-- The step of a compressed instruction. -/
def CInstr.exec (s : State n) (c : CInstr) : Option (State n) :=
  match c with
  | .ebreak => none
  | .j _ | .jr _ => Isa.exec s c.expand
  | .jal _ | .jalr _ => (Isa.exec s c.expand).map fun t => t.set 1 (s.pc + 2)
  | .beqz rs1 _ => if s.x rs1.reg = 0 then Isa.exec s c.expand else some (s.setPC (s.pc + 2))
  | .bnez rs1 _ => if s.x rs1.reg ≠ 0 then Isa.exec s c.expand else some (s.setPC (s.pc + 2))
  | _ => (Isa.exec s c.expand).map fun t => t.setPC (s.pc + 2)

/-- Every compressed instruction but the breakpoint expands to a base instruction. -/
theorem CInstr.isBase_expand {c : CInstr} (h : c ≠ .ebreak) : isBase c.expand = true := by
  cases c <;> first | rfl | exact absurd rfl h

/-! ## The machine -/

/-- An instruction as it stands in the memory. -/
inductive Fetched
  | full (i : Instr)
  | compressed (c : CInstr)
  deriving Repr

def Fetched.isFence : Fetched → Bool
  | .full (.fence ..) => true
  | _ => false

namespace Fetched

/-- The encoding stands at the PC. -/
def At (s : State n) : Fetched → Prop
  | .full i => i.Defined n ∧ read 32 s.mem s.pc.toNat 4 = encode i
  | .compressed c => c.Defined n ∧ read 16 s.mem s.pc.toNat 2 = c.encode

instance At.decidable (s : State n) : (f : Fetched) → Decidable (f.At s)
  | .full _ | .compressed _ => inferInstanceAs (Decidable (_ ∧ _))

def exec (s : State n) : Fetched → Option (State n)
  | .full i => Isa.exec s i
  | .compressed c => c.exec s

/-- The data access. -/
def access (s : State n) : Fetched → Option (BitVec n × ℕ)
  | .full i => dataAccess s.x i
  | .compressed c => dataAccess s.x c.expand

end Fetched

/-- A step of the machine. -/
def Machine.next (s : State n) (f : Fetched) : Option (State n) :=
  if f.At s then f.exec s else none

/-- The instruction, the four bytes at the PC and the data lie below `size`. -/
structure Machine.Within (size : ℕ) (s : State n) (f : Fetched) : Prop where
  fetch : s.pc.toNat + 4 ≤ size
  data : ∀ a k, f.access s = some (a, k) → a.toNat + k ≤ size

instance Machine.Within.decidable (size : ℕ) (s : State n) (f : Fetched) :
    Decidable (Within size s f) :=
  decidable_of_iff (s.pc.toNat + 4 ≤ size ∧ ∀ p ∈ f.access s, p.1.toNat + p.2 ≤ size)
    ⟨fun h => ⟨h.1, fun a k he => h.2 (a, k) he⟩, fun h => ⟨h.fetch, fun p he => h.data p.1 p.2 he⟩⟩

theorem Machine.next_eq_some {s t : State n} {f : Fetched} :
    next s f = some t ↔ f.At s ∧ f.exec s = some t := Option.ite_none_right_eq_some

end Isa
