import Mathlib.Data.Int.Notation
import RiscvTlm.Isa.Instr

/-!
# The meaning of multiplication and division

The result of each instruction of the M extension on registers of `n` bits, over the integers: the
exact product and its high half, the quotient rounded towards zero and its remainder, with the
results that the manual gives for a division by zero and for the overflow.
-/

namespace Isa

variable {n : ℕ}

/-- The upper `n` of the `2 * n` bits of a product. -/
def highHalf (n : ℕ) (product : ℤ) : BitVec n := BitVec.ofInt n (product / 2 ^ n)

/-- The quotient of the least value by `-1` is out of range. -/
def Overflows (a b : BitVec n) : Prop := a = BitVec.intMin n ∧ b = -1

instance (a b : BitVec n) : Decidable (Overflows a b) := inferInstanceAs (Decidable (_ ∧ _))

def MulOp.eval (a b : BitVec n) : MulOp → BitVec n
  | .mul => BitVec.ofInt n (a.toInt * b.toInt)
  | .mulh => highHalf n (a.toInt * b.toInt)
  | .mulhsu => highHalf n (a.toInt * b.toNat)
  | .mulhu => highHalf n (a.toNat * b.toNat)
  | .div =>
    if b = 0 then -1
    else if Overflows a b then BitVec.intMin n
    else BitVec.ofInt n (a.toInt.tdiv b.toInt)
  | .divu => if b = 0 then -1 else BitVec.ofNat n (a.toNat / b.toNat)
  | .rem =>
    if b = 0 then a
    else if Overflows a b then 0
    else BitVec.ofInt n (a.toInt.tmod b.toInt)
  | .remu => if b = 0 then a else BitVec.ofNat n (a.toNat % b.toNat)

/-- The operation that a word operation is on registers of 32 bits. -/
def MulOpW.narrow : MulOpW → MulOp
  | .mulw => .mul
  | .divw => .div
  | .divuw => .divu
  | .remw => .rem
  | .remuw => .remu

example : MulOp.mulhsu.eval (-1 : BitVec 32) 3 = -1 := by decide

end Isa
