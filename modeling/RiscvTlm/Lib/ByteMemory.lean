import RiscvTlm.Lib.Bytes

/-!
# Byte memories

A memory is a function from addresses to bytes, `read` the little-endian number in consecutive
bytes, and `Write` a write of consecutive bytes. After any sequence of writes each byte is the one
of the latest write that covers its address (`writeAll_apply`). A read or write of `n + m` bytes is
the one of its low `n` bytes and the one of the `m` bytes above them (`read_add`,
`Write.ofNum_add`).
-/

namespace ByteMemory

open Bytes

abbrev Mem := ℕ → BitVec 8

variable {k w v : ℕ} {mem mem' : Mem} {a n m i : ℕ}

/-- The `w`-bit number in the `n` bytes from `a` on. -/
def read (w : ℕ) (mem : Mem) (a n : ℕ) : BitVec w := ofBytes w (fun i => mem (a + i)) n

/-- A write of `len` bytes from `addr` on. -/
structure Write where
  addr : ℕ
  len : ℕ
  bytes : ℕ → BitVec 8

namespace Write

/-- The write changes the byte at `i`. -/
def Covers (x : Write) (i : ℕ) : Prop := x.addr ≤ i ∧ i < x.addr + x.len

instance (x : Write) (i : ℕ) : Decidable (x.Covers i) := inferInstanceAs (Decidable (_ ∧ _))

def apply (x : Write) (mem : Mem) : Mem := fun i =>
  if x.Covers i then x.bytes (i - x.addr) else mem i

/-- The write of the low `n` bytes of a number. -/
def ofNum (a n : ℕ) (v : BitVec k) : Write := ⟨a, n, byte v⟩

theorem apply_of_covers {x : Write} (h : x.Covers i) : x.apply mem i = x.bytes (i - x.addr) :=
  if_pos h

theorem apply_of_not_covers {x : Write} (h : ¬x.Covers i) : x.apply mem i = mem i := if_neg h

theorem ofNum_apply (a n : ℕ) (v : BitVec k) (mem : Mem) (i : ℕ) :
    (ofNum a n v).apply mem i = if a ≤ i ∧ i < a + n then byte v (i - a) else mem i := rfl

/-- The low bytes first, then the bytes above them. -/
theorem ofNum_add (a n m : ℕ) (v : BitVec k) (mem : Mem) :
    (ofNum a (n + m) v).apply mem =
      (ofNum (a + n) m (v >>> (8 * n))).apply ((ofNum a n v).apply mem) := by
  funext i
  rw [ofNum_apply, ofNum_apply, ofNum_apply, byte_ushiftRight]
  by_cases hlo : i < a + n
  · rw [if_neg (show ¬(a + n ≤ i ∧ i < a + n + m) by omega)]
    by_cases ha : a ≤ i
    · rw [if_pos (by omega), if_pos (by omega)]
    · rw [if_neg (by omega), if_neg (by omega)]
  · by_cases hhi : i < a + (n + m)
    · rw [if_pos (by omega), if_pos (by omega), show n + (i - (a + n)) = i - a by omega]
    · rw [if_neg (by omega), if_neg (by omega), if_neg (by omega)]

/-- Only the bytes written matter. -/
theorem ofNum_congr {x : BitVec k} {y : BitVec v} (h : ∀ i < n, byte x i = byte y i) :
    (ofNum a n x).apply mem = (ofNum a n y).apply mem := by
  funext i
  rw [ofNum_apply, ofNum_apply]
  split
  · exact h _ (by omega)
  · rfl

end Write

/-! ## Reads -/

theorem read_congr (h : ∀ i < n, mem (a + i) = mem' (a + i)) : read w mem a n = read w mem' a n :=
  ofBytes_congr h

theorem byte_read (hi : i < n) (hw : 8 * n ≤ w) : byte (read w mem a n) i = mem (a + i) :=
  byte_ofBytes _ hi hw

theorem read_add (mem : Mem) (a n m : ℕ) :
    read w mem a (n + m) = read w mem a n ||| read w mem (a + n) m <<< (8 * n) := by
  rw [read, ofBytes_add]
  simp only [read, Nat.add_assoc]

/-- A read of the bytes just written. -/
theorem read_ofNum (a : ℕ) (v : BitVec (8 * k)) (mem : Mem) :
    read (8 * k) ((Write.ofNum a k v).apply mem) a k = v := by
  refine Eq.trans (ofBytes_congr fun i hi => ?_) (ofBytes_byte v)
  rw [Write.apply_of_covers ⟨Nat.le_add_right a i, Nat.add_lt_add_left hi a⟩]
  exact congrArg (byte v) (Nat.add_sub_cancel_left a i)

/-- A read that no byte of a write falls into. -/
theorem read_apply_of_disjoint {x : Write} (h : ∀ i < n, ¬x.Covers (a + i)) :
    read w (x.apply mem) a n = read w mem a n :=
  read_congr fun i hi => Write.apply_of_not_covers (h i hi)

/-- Writing back what was read changes nothing. -/
theorem ofNum_read (mem : Mem) (a : ℕ) (hw : 8 * n ≤ w) :
    (Write.ofNum a n (read w mem a n)).apply mem = mem := by
  funext i
  rw [Write.ofNum_apply]
  split
  · next h => rw [byte_read (by omega) hw, Nat.add_sub_cancel' h.1]
  · rfl

/-! ## Sequences of writes -/

/-- A sequence of writes, the latest first. -/
def writeAll (mem : Mem) : List Write → Mem
  | [] => mem
  | x :: l => x.apply (writeAll mem l)

/-- The byte of the latest write that covers an address, and the initial byte if there is none. -/
def latestByte (mem : Mem) (l : List Write) (i : ℕ) : BitVec 8 :=
  match l.find? fun x => x.Covers i with
  | some x => x.bytes (i - x.addr)
  | none => mem i

theorem writeAll_apply (mem : Mem) (l : List Write) (i : ℕ) :
    writeAll mem l i = latestByte mem l i := by
  induction l with
  | nil => rfl
  | cons x l ih =>
    rw [latestByte, List.find?_cons]
    by_cases h : x.Covers i
    · rw [writeAll, Write.apply_of_covers h, decide_eq_true h]
    · rw [writeAll, Write.apply_of_not_covers h, decide_eq_false h, ih]
      rfl

end ByteMemory
