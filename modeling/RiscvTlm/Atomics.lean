import RiscvTlm.Dispatch
import RiscvTlm.LoadsStores

/-!
# Atomic operations

What the functions of the A extension do when their operand lies inside the memory. `rs2` is read
after `rd` has been written, so an operation with `rd = rs2` combines the old word with itself; and
the width in `funct3` is not looked at, so the doubleword forms are executed as word operations.
-/

namespace RiscvTlm

open Bytes ByteMemory Prog ExtensionBase

variable {T : CpuType} {s t : System T} {w : BitVec 32} {code : OpACodes}

/-! ## The functions of the extension -/

namespace AExtension

/-- The address operand. -/
def addr (w : BitVec 32) (s : System T) : BitVec T.xlen := s.regs.getValue (getRs1 w)

/-- The word at the address. -/
def oldWord (w : BitVec 32) (s : System T) : BitVec 32 := read 32 s.mem (addr w s).toNat 4

/-- The low word of `rs2`. -/
def operand (w : BitVec 32) (s : System T) : BitVec 32 :=
  (s.regs.getValue (getRs2 w)).setWidth 32

/-- The operation of a read-modify-write code on operands of any width. -/
def amoOp : OpACodes → Option ((n : ℕ) → BitVec n → BitVec n → BitVec n)
  | .OP_A_AMOSWAP => some fun _ _ b => b
  | .OP_A_AMOADD => some fun _ a b => a + b
  | .OP_A_AMOXOR => some fun _ a b => a ^^^ b
  | .OP_A_AMOAND => some fun _ a b => a &&& b
  | .OP_A_AMOOR => some fun _ a b => a ||| b
  | .OP_A_AMOMIN => some fun _ a b => if a.slt b then a else b
  | .OP_A_AMOMAX => some fun _ a b => if b.slt a then a else b
  | .OP_A_AMOMINU => some fun _ a b => if a.ult b then a else b
  | .OP_A_AMOMAXU => some fun _ a b => if b.ult a then a else b
  | _ => none

/-- The second operand as the code reads it, after it has written `rd`. -/
def lateOperand (w : BitVec 32) (s : System T) : BitVec 32 :=
  if getRd w = getRs2 w ∧ getRd w ≠ 0 then oldWord w s else operand w s

theorem getValue_setReg_late (w : BitVec 32) (s : System T) :
    ((s.setReg (getRd w) ((oldWord w s).signExtend T.xlen)).regs.getValue (getRs2 w)).setWidth 32 =
      lateOperand w s := by
  rw [lateOperand, operand, System.setReg, Registers.getValue_setValue _ _ _ _ (getRs2_lt w)]
  by_cases h : getRd w = getRs2 w ∧ getRd w ≠ 0
  · rw [if_pos h, if_pos ⟨h.1.symm, h.2⟩, CpuType.setWidth_signExtend]
  · rw [if_neg h, if_neg fun hc => h ⟨hc.1.symm, hc.2⟩]

/-- The state after a read-modify-write: `rd` gets the old word, and the memory the new one. -/
def amoState (op : BitVec 32 → BitVec 32 → BitVec 32) (w : BitVec 32) (s : System T) : System T :=
  (s.setReg (getRd w) ((oldWord w s).signExtend T.xlen)).setMem
    ((Write.ofNum (addr w s).toNat 4 (op (oldWord w s) (lateOperand w s))).apply s.mem)

/-- `AMOSWAP` writes `rs2` as well. -/
def swapState (w : BitVec 32) (s : System T) : System T :=
  ((s.setReg (getRd w) ((oldWord w s).signExtend T.xlen)).setReg (getRs2 w)
    ((oldWord w s).signExtend T.xlen)).setMem
      ((Write.ofNum (addr w s).toNat 4 (lateOperand w s)).apply s.mem)

section InMemory

variable (h : (addr w s).toNat + 4 ≤ Memory.SIZE)

include h

/-- The 32-bit address variable holds the whole address. -/
theorem toNat_addr : (((addr w s).setWidth 32).setWidth 64).toNat = (addr w s).toNat := by
  unfold Memory.SIZE at h
  rw [setWidth_setWidth_of_lt _ (by omega), toNat_setWidth_64]

theorem run_readOldWord :
    (readDataMem (((addr w s).setWidth 32).setWidth 64) 4).run s = .ok (oldWord w s) s := by
  have ha := toNat_addr h
  rw [run_readWord s (by omega), ha, oldWord]

theorem run_writeNewWord {u : System T} (hu : u.mem = s.mem) (data : BitVec 32) :
    (writeDataMem (((addr w s).setWidth 32).setWidth 64) data 4).run u =
      .ok () (u.setMem ((Write.ofNum (addr w s).toNat 4 data).apply s.mem)) := by
  have ha := toNat_addr h
  rw [run_writeDataMem (by decide) (by decide) (by omega), ha, hu]

theorem run_execAmo (op : BitVec 32 → BitVec 32 → BitVec 32) :
    (execAmo w op).run s = .ok true (amoState op w s) := by
  have hget : (getValue (getRs1 w)).run s = .ok (addr w s) s := rfl
  rw [execAmo, run_bind_ok hget, run_bind_ok (run_readOldWord h), run_bind_ok (run_setReg s _ _),
    run_bind_ok (run_getValue _ _), getValue_setReg_late]
  exact run_bind_ok (run_writeNewWord h (by rfl) _)

theorem run_execAMOSWAP : (execAMOSWAP w).run s = .ok true (swapState w s) := by
  have hget : (getValue (getRs1 w)).run s = .ok (addr w s) s := rfl
  rw [execAMOSWAP, run_bind_ok hget, run_bind_ok (run_readOldWord h),
    run_bind_ok (run_setReg s _ _), run_bind_ok (run_getValue _ _), getValue_setReg_late,
    run_bind_ok (run_setReg _ _ _)]
  exact run_bind_ok (run_writeNewWord h (by rfl) _)

end InMemory

/-! ## Word operations -/

/-- What a read-modify-write of one word has to leave: the new word, the bytes around it, and the
old word in `rd`. -/
structure AmoDone (op : BitVec 32 → BitVec 32 → BitVec 32) (w : BitVec 32) (s t : System T) :
    Prop where
  word : read 32 t.mem (addr w s).toNat 4 = op (oldWord w s) (operand w s)
  frame : ∀ i, ¬((addr w s).toNat ≤ i ∧ i < (addr w s).toNat + 4) → t.mem i = s.mem i
  rd : getRd w ≠ 0 → t.regs.getValue (getRd w) = (oldWord w s).signExtend T.xlen

/-- `rs2` gets the value that `rd` has got. -/
theorem getValue_setReg_setReg (s : System T) {n m : ℕ} (v : BitVec T.xlen) (hn : n < 32)
    (h0 : n ≠ 0) : ((s.setReg n v).setReg m v).regs.getValue n = v := by
  rw [System.setReg, Registers.getValue_setValue _ _ _ _ hn, getValue_setReg s v hn h0, ite_self]

/-- The memory and `rd` after a read-modify-write. -/
theorem run_amo {op : (n : ℕ) → BitVec n → BitVec n → BitVec n} (hop : amoOp code = some op)
    (h : (addr w s).toNat + 4 ≤ Memory.SIZE) :
    ∃ t, (execInstruction w code).run s = .ok true t ∧
      t.mem = (Write.ofNum (addr w s).toNat 4
        (op 32 (oldWord w s) (lateOperand w s))).apply s.mem ∧
      (getRd w ≠ 0 → t.regs.getValue (getRd w) = (oldWord w s).signExtend T.xlen) := by
  have hamo (f : BitVec 32 → BitVec 32 → BitVec 32) :
      (amoState f w s).mem =
        (Write.ofNum (addr w s).toNat 4 (f (oldWord w s) (lateOperand w s))).apply s.mem ∧
      (getRd w ≠ 0 →
        (amoState f w s).regs.getValue (getRd w) = (oldWord w s).signExtend T.xlen) :=
    ⟨rfl, fun h0 => getValue_setReg s _ (getRd_lt w) h0⟩
  cases code
  case OP_A_AMOSWAP =>
    cases hop
    exact ⟨swapState w s, run_bind_ok (run_execAMOSWAP h), rfl,
      fun h0 => getValue_setReg_setReg s _ (getRd_lt w) h0⟩
  case OP_A_LR | OP_A_SC | OP_A_ERROR => cases hop
  all_goals
    cases hop
    exact ⟨_, run_bind_ok (run_execAmo h _), hamo _⟩

/-- A read-modify-write of a word is done unless `rs2` is `rd` and the old word, which `rs2` then
holds, gives another result. -/
theorem amoDone_iff {op : (n : ℕ) → BitVec n → BitVec n → BitVec n} (hop : amoOp code = some op)
    (h : (addr w s).toNat + 4 ≤ Memory.SIZE) :
    ∃ t, (execInstruction w code).run s = .ok true t ∧
      (AmoDone (op 32) w s t ↔ (getRd w = getRs2 w → getRd w ≠ 0 →
        op 32 (oldWord w s) (oldWord w s) = op 32 (oldWord w s) (operand w s))) := by
  obtain ⟨t, ht, hmem, hrd⟩ := run_amo hop h
  have hword : read 32 t.mem (addr w s).toNat 4 = op 32 (oldWord w s) (lateOperand w s) := by
    rw [hmem]
    exact read_ofNum (k := 4) _ _ _
  refine ⟨t, ht, fun hd => ?_, fun hc => ⟨?_, fun i hi => ?_, hrd⟩⟩
  · intro he h0
    rw [← hd.word, hword, lateOperand, if_pos ⟨he, h0⟩]
  · rw [hword, lateOperand]
    split
    · next hl => exact hc hl.1 hl.2
    · rfl
  · rw [hmem]
    exact Write.apply_of_not_covers hi

/-- `amoadd.w x3, x2, (x0)` with `x2 = 0x3FFFFF`. -/
theorem amoDone_amoadd :
    ∃ t : System .RV32,
      (execInstruction 0x002021AF .OP_A_AMOADD).run (start .RV32 [0x002021AF]) = .ok true t ∧
      AmoDone (fun a b => a + b) 0x002021AF (start .RV32 [0x002021AF]) t := by
  have hop : amoOp .OP_A_AMOADD = some fun _ a b => a + b := rfl
  have h : (addr 0x002021AF (start .RV32 [0x002021AF])).toNat + 4 ≤ Memory.SIZE := by decide
  obtain ⟨t, ht, hd⟩ := amoDone_iff hop h
  exact ⟨t, ht, hd.mpr fun he => absurd he (by decide)⟩

/-- `amoadd.w x2, x2, (x0)` adds the old word to itself. -/
theorem not_amoDone_amoadd :
    ∃ t : System .RV32,
      (execInstruction 0x0020212F .OP_A_AMOADD).run (start .RV32 [0x0020212F]) = .ok true t ∧
      ¬AmoDone (fun a b => a + b) 0x0020212F (start .RV32 [0x0020212F]) t := by
  refine ⟨_, rfl, fun h => ?_⟩
  exact absurd h.word (by decide)

/-! ## Doubleword operations -/

/-- A doubleword atomic of the manual, by its opcode and width; `LR.D` has no second operand. -/
structure DoubleWord (w : BitVec 32) : Prop where
  opcode : BaseIsa.opcode w = 0b0101111
  funct3 : ExtensionBase.getFunct3 w = 0b011
  lr : AExtension.decode w = .OP_A_LR → getRs2 w = 0

/-- The doubleword at the address. -/
def oldDouble (w : BitVec 32) (s : System T) : BitVec 64 := read 64 s.mem (addr w s).toNat 8

/-- The contents of `rs2`. -/
def doubleOperand (w : BitVec 32) (s : System .RV64) : BitVec 64 := s.regs.getValue (getRs2 w)

/-- The address is among the reservations. -/
def Reserved (w : BitVec 32) (s : System T) : Prop := (addr w s).setWidth 32 ∈ s.tlbAEntries

/-- The high half of a doubleword. -/
def highWord (x : BitVec 64) : BitVec 32 := (x >>> 32).setWidth 32

/-- What a doubleword read-modify-write has to leave in the memory and in `rd`. -/
def AmoDoubleDone (op : (n : ℕ) → BitVec n → BitVec n → BitVec n) (w : BitVec 32)
    (s t : System .RV64) : Prop :=
  t.mem = (Write.ofNum (addr w s).toNat 8
    (op 64 (oldDouble w s) (doubleOperand w s))).apply s.mem ∧
  (getRd w ≠ 0 → t.regs.getValue (getRd w) = oldDouble w s)

/-- The new doubleword differs from the old one in the low word only, which is what the word
operation gives, and `rd`, if it is written, gets the old doubleword as a sign-extended word. -/
def AmoWordSuffices (op : (n : ℕ) → BitVec n → BitVec n → BitVec n) (w : BitVec 32)
    (s : System .RV64) : Prop :=
  ((op 64 (oldDouble w s) (doubleOperand w s)).setWidth 32 =
      op 32 (oldWord w s) (lateOperand w s) ∧
    highWord (op 64 (oldDouble w s) (doubleOperand w s)) = highWord (oldDouble w s)) ∧
  (getRd w ≠ 0 → oldDouble w s = (oldWord w s).signExtend 64)

/-- What a doubleword atomic has to leave in the memory and in `rd`. -/
def DoubleDone (w : BitVec 32) (s t : System .RV64) : OpACodes → Prop
  | .OP_A_LR => t.mem = s.mem ∧ (getRd w ≠ 0 → t.regs.getValue (getRd w) = oldDouble w s)
  | .OP_A_SC =>
    (Reserved w s → t.mem = (Write.ofNum (addr w s).toNat 8 (doubleOperand w s)).apply s.mem ∧
      (getRd w ≠ 0 → t.regs.getValue (getRd w) = 0)) ∧
    (¬Reserved w s → t.mem = s.mem ∧ (getRd w ≠ 0 → t.regs.getValue (getRd w) ≠ 0))
  | code => ∀ op, amoOp code = some op → AmoDoubleDone op w s t

/-- The word operation does the work of the doubleword operation. -/
def WordSuffices (w : BitVec 32) (s : System .RV64) : OpACodes → Prop
  | .OP_A_LR => getRd w ≠ 0 → oldDouble w s = (oldWord w s).signExtend 64
  | .OP_A_SC => Reserved w s → highWord (doubleOperand w s) = highWord (oldDouble w s)
  | code => ∀ op, amoOp code = some op → AmoWordSuffices op w s

theorem highWord_read (mem : Mem) (a : ℕ) :
    highWord (read 64 mem a 8) = read 32 mem (a + 4) 4 := by
  have hb : ∀ i < 4, byte (highWord (read 64 mem a 8)) i = mem (a + 4 + i) := by
    intro i hi
    rw [highWord, byte_setWidth _ (by omega)]
    refine (byte_ushiftRight _ i 4).trans ?_
    rw [byte_read (by omega) (by decide), Nat.add_assoc]
  exact (ofBytes_byte (k := 4) _).symm.trans (ofBytes_congr hb)

/-- A word write against a doubleword write at the same address. -/
theorem ofNum_word_eq_iff (mem : Mem) (a : ℕ) (x : BitVec 32) (v : BitVec 64) :
    (Write.ofNum a 4 x).apply mem = (Write.ofNum a 8 v).apply mem ↔
      v.setWidth 32 = x ∧ highWord v = highWord (read 64 mem a 8) := by
  have hlo (y : BitVec 32) : read 32 ((Write.ofNum a 4 y).apply mem) a 4 = y :=
    read_ofNum (k := 4) a y mem
  have hhi (y : BitVec 32) :
      read 32 ((Write.ofNum a 4 y).apply mem) (a + 4) 4 = read 32 mem (a + 4) 4 := by
    refine read_apply_of_disjoint fun i hi hc => ?_
    have hlt : a + 4 + i < a + 4 := hc.2
    omega
  rw [← ofNum_words, highWord_read]
  constructor
  · intro h
    constructor
    · rw [← hlo x, h, read_apply_of_disjoint, hlo]
      intro i hi hc
      have hle : a + 4 ≤ a + i := hc.1
      omega
    · rw [← hhi x, h]
      exact (read_ofNum (k := 4) (a + 4) (highWord v) _).symm
  · rintro ⟨rfl, hv⟩
    rw [show (v >>> 32).setWidth 32 = highWord v from rfl, hv, ← hhi (v.setWidth 32),
      ofNum_read _ _ (by decide)]

/-! ## Load-reserved and store-conditional -/

/-- The state after `LR`. -/
def lrState (w : BitVec 32) (s : System T) : System T :=
  { s.setReg (getRd w) ((oldWord w s).signExtend T.xlen) with
    tlbAEntries := insert ((addr w s).setWidth 32) s.tlbAEntries }

/-- The state after an `SC` that finds its reservation. -/
def scState (w : BitVec 32) (s : System T) : System T :=
  { (s.setMem ((Write.ofNum (addr w s).toNat 4 (operand w s)).apply s.mem)).setReg (getRd w) 0 with
    tlbAEntries := s.tlbAEntries.erase ((addr w s).setWidth 32) }

theorem run_execLR (h0 : getRs2 w = 0) (h : (addr w s).toNat + 4 ≤ Memory.SIZE) :
    (execLR w).run s = .ok true (lrState w s) := by
  have hget : (getValue (getRs1 w)).run s = .ok (addr w s) s := rfl
  rw [execLR, if_neg (not_not.mpr h0), run_bind_ok hget, run_bind_ok (run_readOldWord h),
    run_bind_ok (run_setReg s _ _)]
  exact run_bind_ok rfl

theorem run_tlbReserved_true {a : BitVec 32} (h : a ∈ s.tlbAEntries) :
    (tlbReserved a).run s = .ok true { s with tlbAEntries := s.tlbAEntries.erase a } := by
  rw [tlbReserved, run_get_bind, if_pos h]
  rfl

theorem run_tlbReserved_false {a : BitVec 32} (h : a ∉ s.tlbAEntries) :
    (tlbReserved a).run s = .ok false s := by
  rw [tlbReserved, run_get_bind, if_neg h]
  rfl

theorem run_execSC_reserved (hr : Reserved w s) (h : (addr w s).toNat + 4 ≤ Memory.SIZE) :
    (execSC w).run s = .ok true (scState w s) := by
  have hget : (getValue (getRs1 w)).run s = .ok (addr w s) s := rfl
  rw [execSC, run_bind_ok hget, run_bind_ok (run_getValue s _),
    run_bind_ok (run_tlbReserved_true hr), if_pos rfl]
  exact (run_bind_ok (run_writeNewWord h (by rfl) _)).trans (run_bind_ok rfl)

theorem run_execSC_not_reserved (hr : ¬Reserved w s) :
    (execSC w).run s = .ok true (s.setReg (getRd w) 1) := by
  have hget : (getValue (getRs1 w)).run s = .ok (addr w s) s := rfl
  rw [execSC, run_bind_ok hget, run_bind_ok (run_getValue s _),
    run_bind_ok (run_tlbReserved_false hr), if_neg Bool.false_ne_true]
  exact run_bind_ok rfl

/-! ## Doubleword forms executed as word forms -/

/-- The cascade gives the atomics to the A extension, whatever their width. -/
theorem decodeCascade_atomic (ho : BaseIsa.opcode w = 0b0101111)
    (h3 : ExtensionBase.getFunct3 w = 0b010 ∨ ExtensionBase.getFunct3 w = 0b011)
    (hne : decode w ≠ .OP_A_ERROR) : decodeCascade T w = .a (decode w) := by
  have hb : ¬BaseWord w := by
    unfold BaseWord
    rw [ho]
    simp
  have hc : ¬(CExtension.opcode w ≠ 3 ∧ ¬CReserved w) := by
    rw [← opcode_mod_four, ho]
    simp
  have hm : ¬MTable w := by
    unfold MTable
    rw [ho]
    rcases h3 with h3 | h3 <;> simp [h3]
  rw [← decode_ne_error_iff] at hb
  rw [← decode_c_ne_error_iff (T := T)] at hc
  rw [← decode_m_ne_error_iff] at hm
  simp only [decodeCascade, if_neg hb, if_neg hc, if_neg hm, if_pos hne]

section Doubleword

variable {s t : System .RV64}

theorem doubleDone_lr (h0 : getRs2 w = 0) (h : (addr w s).toNat + 4 ≤ Memory.SIZE) :
    ∃ t, (execInstruction w .OP_A_LR).run s = .ok true t ∧
      (DoubleDone w s t .OP_A_LR ↔ WordSuffices w s .OP_A_LR) := by
  refine ⟨lrState w s, run_bind_ok (run_execLR h0 h), fun hd hrd => ?_, fun hs => ⟨rfl, ?_⟩⟩
  · exact (hd.2 hrd).symm.trans (getValue_setReg s _ (getRd_lt w) hrd)
  · intro hrd
    rw [hs hrd]
    exact getValue_setReg s _ (getRd_lt w) hrd

theorem doubleDone_sc (h : (addr w s).toNat + 4 ≤ Memory.SIZE) :
    ∃ t, (execInstruction w .OP_A_SC).run s = .ok true t ∧
      (DoubleDone w s t .OP_A_SC ↔ WordSuffices w s .OP_A_SC) := by
  by_cases hr : Reserved w s
  · have hmem : (scState w s).mem =
        (Write.ofNum (addr w s).toNat 4 (operand w s)).apply s.mem := rfl
    have heq := ofNum_word_eq_iff s.mem (addr w s).toNat (operand w s) (doubleOperand w s)
    refine ⟨scState w s, run_bind_ok (run_execSC_reserved hr h), fun hd _ => ?_, fun hs => ?_⟩
    · have hx := (hd.1 hr).1
      rw [hmem] at hx
      exact (heq.mp hx).2
    · refine ⟨fun _ => ⟨hmem.trans (heq.mpr ⟨rfl, hs hr⟩), fun hrd => ?_⟩, fun hn => absurd hr hn⟩
      exact getValue_setReg (s.setMem _) _ (getRd_lt w) hrd
  · refine ⟨_, run_bind_ok (run_execSC_not_reserved hr), fun _ hx => absurd hx hr, fun _ => ?_⟩
    refine ⟨fun hx => absurd hx hr, fun _ => ⟨rfl, fun hrd => ?_⟩⟩
    rw [getValue_setReg s _ (getRd_lt w) hrd]
    decide

theorem amoDoubleDone_iff {op : (n : ℕ) → BitVec n → BitVec n → BitVec n}
    (hop : amoOp code = some op) (h : (addr w s).toNat + 4 ≤ Memory.SIZE) :
    ∃ t, (execInstruction w code).run s = .ok true t ∧
      (AmoDoubleDone op w s t ↔ AmoWordSuffices op w s) := by
  obtain ⟨t, ht, hmem, hrd⟩ := run_amo hop h
  have heq := ofNum_word_eq_iff s.mem (addr w s).toNat (op 32 (oldWord w s) (lateOperand w s))
    (op 64 (oldDouble w s) (doubleOperand w s))
  rw [← hmem] at heq
  refine ⟨t, ht, and_congr heq ⟨fun hd h0 => ?_, fun hs h0 => ?_⟩⟩
  · rw [← hd h0, hrd h0]
  · rw [hs h0, hrd h0]

/-- Every operation of the extension but `LR` and `SC` is a read-modify-write. -/
theorem exists_amoOp (hlr : code ≠ .OP_A_LR) (hsc : code ≠ .OP_A_SC) (hne : code ≠ .OP_A_ERROR) :
    ∃ op, amoOp code = some op := by
  cases code
  case OP_A_LR => exact absurd rfl hlr
  case OP_A_SC => exact absurd rfl hsc
  case OP_A_ERROR => exact absurd rfl hne
  all_goals exact ⟨_, rfl⟩

theorem doubleDone_amo {op : (n : ℕ) → BitVec n → BitVec n → BitVec n}
    (hop : amoOp code = some op) (h : (addr w s).toNat + 4 ≤ Memory.SIZE) :
    ∃ t, (execInstruction w code).run s = .ok true t ∧
      (DoubleDone w s t code ↔ WordSuffices w s code) := by
  obtain ⟨t, ht, hd⟩ := amoDoubleDone_iff hop h
  have hd' : (∀ op', amoOp code = some op' → AmoDoubleDone op' w s t) ↔
      ∀ op', amoOp code = some op' → AmoWordSuffices op' w s := by
    rw [hop]
    constructor
    · intro hx op' he
      cases he
      exact hd.mp (hx _ rfl)
    · intro hx op' he
      cases he
      exact hd.mpr (hx _ rfl)
  refine ⟨t, ht, ?_⟩
  cases code
  case OP_A_LR | OP_A_SC | OP_A_ERROR => cases hop
  all_goals exact hd'

/-- The PC increment after an atomic touches neither the memory nor the registers. -/
theorem doubleDone_incPC :
    DoubleDone w s { t with regs := t.regs.incPC } code ↔ DoubleDone w s t code := by
  cases code <;> exact Iff.rfl

/-- A doubleword atomic is executed as its word form, which does its work exactly when the high
words do not matter. -/
theorem doubleDone_iff (hw : DoubleWord w) (hne : decode w ≠ .OP_A_ERROR)
    (h : (addr w s).toNat + 8 ≤ Memory.SIZE) :
    ∃ t, (execDecoded w (decodeCascade .RV64 w)).run s = .ok false t ∧
      (DoubleDone w s t (decode w) ↔ WordSuffices w s (decode w)) := by
  have h4 : (addr w s).toNat + 4 ≤ Memory.SIZE := by omega
  have hx : ∃ t, (execInstruction w (decode w)).run s = .ok true t ∧
      (DoubleDone w s t (decode w) ↔ WordSuffices w s (decode w)) := by
    by_cases hlr : decode w = .OP_A_LR
    · rw [hlr]
      exact doubleDone_lr (hw.lr hlr) h4
    · by_cases hsc : decode w = .OP_A_SC
      · rw [hsc]
        exact doubleDone_sc h4
      · obtain ⟨op, hop⟩ := exists_amoOp hlr hsc hne
        exact doubleDone_amo hop h4
  obtain ⟨t, ht, hd⟩ := hx
  rw [decodeCascade_atomic hw.opcode (.inr hw.funct3) hne]
  exact ⟨_, run_execDecoded_a ht, doubleDone_incPC.trans hd⟩

/-- `amoadd.d x3, x2, (x0)` on a small doubleword. -/
theorem doubleDone_amoadd :
    ∃ t, (execDecoded 0x002031AF (decodeCascade .RV64 0x002031AF)).run
        (start .RV64 [0x002031AF]) = .ok false t ∧
      DoubleDone 0x002031AF (start .RV64 [0x002031AF]) t .OP_A_AMOADD := by
  have hw : DoubleWord 0x002031AF := ⟨by decide, by decide, by decide⟩
  have h : (addr 0x002031AF (start .RV64 [0x002031AF])).toNat + 8 ≤ Memory.SIZE := by decide
  obtain ⟨t, ht, hd⟩ := doubleDone_iff hw (by decide) h
  refine ⟨t, ht, hd.mpr fun op hop => ?_⟩
  cases hop
  exact ⟨⟨by decide, by decide⟩, fun _ => by decide⟩

/-- `amoadd.d x3, x2, (x0)` returns the low word of the doubleword only. -/
theorem not_doubleDone_amoadd :
    ∃ t, (execDecoded 0x002031AF (decodeCascade .RV64 0x002031AF)).run
        (start .RV64 [0x002031AF, 1]) = .ok false t ∧
      ¬DoubleDone 0x002031AF (start .RV64 [0x002031AF, 1]) t .OP_A_AMOADD := by
  refine ⟨_, rfl, fun h => ?_⟩
  exact absurd ((h _ rfl).2 (by decide)) (by decide)

end Doubleword

end AExtension

end RiscvTlm
