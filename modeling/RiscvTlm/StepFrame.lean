import RiscvTlm.ArchState
import RiscvTlm.DecodeEncode
import RiscvTlm.Reservations

/-!
# The frame of a step

A step without an exception changes one register, the destination of the instruction, and the bytes
at the effective address of a store. The code does more in two places: `AMOSWAP` writes `rs2`
besides `rd`, and the stores that keep their address in a `std::uint32_t` write to another place
when the address does not fit.
-/

namespace RiscvTlm

open Isa BitField Bytes ByteMemory Prog ExtensionBase AExtension

variable {T : CpuType} {s s₁ t : System T} {w : BitVec 32} {d : Decoded} {b : Bool}

/-! ## The write of a word -/

/-- The store that a decoded word is. -/
def storeOp : Decoded → Option RiscvTlm.StoreOp
  | .base .OP_SB => some .SB
  | .base .OP_SH => some .SH
  | .base .OP_SW => some .SW
  | .base .OP_SD => some .SD
  | .c .OP_C_SW => some .C_SW
  | .c .OP_C_SWSP => some .C_SWSP
  | .c .OP_C_SD => some .C_SD
  | .c .OP_C_SDSP => some .C_SDSP
  | _ => none

/-- The effective address of a word that stores, and the number of bytes the code writes. -/
def target (w : BitVec 32) (s : System T) (d : Decoded) : Option (BitVec T.xlen × ℕ) :=
  match d with
  | .a code => if storing (.a code) then some (addr w s, 4) else none
  | d => (storeOp d).map fun op => (op.addr w s, op.width)

/-- The word that an atomic reads at the low 32 bits of its address. -/
def loadedWord (w : BitVec 32) (s : System T) : BitVec 32 :=
  match (readDataMem (((addr w s).setWidth 32).setWidth 64) 4).run s with
  | .ok data _ => data
  | .error _ _ => 0

/-- `rs2` as an atomic reads it, after it has written the loaded word to `rd`. -/
def loadedOperand (w : BitVec 32) (s : System T) : BitVec 32 :=
  ((s.setReg (getRd w) ((loadedWord w s).signExtend T.xlen)).regs.getValue (getRs2 w)).setWidth 32

/-- The effective address and the word written of a store that keeps its address in a
`std::uint32_t`. -/
def narrowStore (w : BitVec 32) (s : System T) : Decoded → Option (BitVec T.xlen × BitVec 32)
  | .c .OP_C_SW =>
    some (RiscvTlm.StoreOp.C_SW.addr w s, (s.regs.getValue (CExtension.getRs2p w)).setWidth 32)
  | .c .OP_C_SWSP =>
    some (RiscvTlm.StoreOp.C_SWSP.addr w s, (s.regs.getValue (CExtension.getRs2 w)).setWidth 32)
  | .a .OP_A_SC =>
    if (addr w s).setWidth 32 ∈ s.tlbAEntries then some (addr w s, operand w s) else none
  | .a code => (amoOp code).map fun op => (addr w s, op 32 (loadedWord w s) (loadedOperand w s))
  | _ => none

/-! ## Bytes at an address -/

/-- One of the `size` bytes from `a` on, with wrap-around. -/
def AtAddress (a : BitVec T.xlen) (size i : ℕ) : Prop :=
  ∃ k < size, (a + BitVec.ofNat T.xlen k).toNat = i

theorem toNat_add_ofNat {a : BitVec T.xlen} (ha : a.toNat < Memory.SIZE) {k : ℕ} (hk : k < 8) :
    (a + BitVec.ofNat T.xlen k).toNat = a.toNat + k := by
  have hx : 2 ^ 32 ≤ 2 ^ T.xlen := Nat.pow_le_pow_right (by decide) T.le_xlen
  unfold Memory.SIZE at ha
  rw [BitVec.toNat_add, BitVec.toNat_ofNat, Nat.mod_eq_of_lt (a := k) (by omega),
    Nat.mod_eq_of_lt (by omega)]

/-- A write to the memory changes bytes at its address only. -/
theorem write_frame {a : BitVec T.xlen} {size i : ℕ} (hsize : size ≤ 8)
    (hi : ¬AtAddress a size i) (v : BitVec 32) (mem : Mem) :
    (if a.toNat < Memory.SIZE then (Write.ofNum a.toNat size v).apply mem else mem) i = mem i := by
  by_cases ha : a.toNat < Memory.SIZE
  · rw [if_pos ha]
    refine Write.apply_of_not_covers fun hc => hi ?_
    have hle : a.toNat ≤ i := hc.1
    have hlt : i < a.toNat + size := hc.2
    refine ⟨i - a.toNat, by omega, ?_⟩
    rw [toNat_add_ofNat ha (by omega)]
    omega
  · rw [if_neg ha]

/-- The second half of a doubleword lies at its address. -/
theorem AtAddress.of_add_four {a : BitVec T.xlen} {i : ℕ} (h : AtAddress (a + 4) 4 i) :
    AtAddress a 8 i := by
  obtain ⟨k, hk, rfl⟩ := h
  refine ⟨4 + k, by omega, ?_⟩
  have h4 : (4 : BitVec T.xlen) = BitVec.ofNat T.xlen 4 := by cases T <;> rfl
  rw [h4, BitVec.add_assoc, ← BitVec.ofNat_add]

theorem AtAddress.mono {a : BitVec T.xlen} {m n i : ℕ} (hmn : m ≤ n) (h : AtAddress a m i) :
    AtAddress a n i := by
  obtain ⟨k, hk, hi⟩ := h
  exact ⟨k, by omega, hi⟩

/-- An address from `2 ^ 32` on has no byte in common with the word at its low half, if that word
begins inside the memory. -/
theorem not_atAddress_of_narrow {a : BitVec T.xlen} {size i : ℕ} (hsize : size ≤ 8)
    (ha : 2 ^ 32 ≤ a.toNat) (hlo : (a.setWidth 32).toNat < Memory.SIZE)
    (hi : i < (a.setWidth 32).toNat + 4) : ¬AtAddress a size i := by
  rintro ⟨k, hk, he⟩
  have hlt := a.isLt
  unfold Memory.SIZE at hlo
  rw [BitVec.toNat_setWidth] at hlo hi
  rw [BitVec.toNat_add, BitVec.toNat_ofNat] at he
  have hp : 2 ^ T.xlen = 2 ^ 32 ∨ 2 ^ T.xlen = 2 ^ 64 := by
    cases T
    · exact .inl rfl
    · exact .inr rfl
  rcases hp with hp | hp
  · rw [hp] at hlt he
    omega
  · rw [hp] at hlt he
    omega

/-! ## The memory after a store -/

section Stores

variable {rs1 rs2 size : ℕ} {i : ℕ}

/-- A store of the base set of at most a word. -/
theorem BaseIsa.execStore_frame (hsize : size ≤ 4) (h : (execStore w size).run s = .ok b t)
    (hi : ¬AtAddress (getImmS w T + s.regs.getValue (ExtensionBase.getRs1 w)) size i) :
    t.mem i = s.mem i := by
  rw [execStore, run_bind_ok (run_getValue s _), run_bind_ok (run_getValue s _)] at h
  obtain ⟨x, u, hu, ht⟩ := bind_eq_ok h
  cases ht
  rw [mem_of_writeDataMem hsize hu, toNat_setWidth_64]
  exact write_frame (by omega) hi _ _

/-- The two word writes of a doubleword store. -/
theorem writeDouble_frame {a : BitVec T.xlen} {lo hi : BitVec 32}
    (h : (do
      writeDataMem (a.setWidth 64) lo 4
      writeDataMem ((a + 4).setWidth 64) hi 4
      return true : Sim T Bool).run s = .ok b t) (hi : ¬AtAddress a 8 i) :
    t.mem i = s.mem i := by
  obtain ⟨x, u, hu, h⟩ := bind_eq_ok h
  obtain ⟨y, v, hv, ht⟩ := bind_eq_ok h
  cases ht
  have hlo : ¬AtAddress a 4 i := fun hc => hi (hc.mono (by decide))
  have hhi : ¬AtAddress (a + 4) 4 i := fun hc => hi hc.of_add_four
  rw [mem_of_writeDataMem (by decide) hv, toNat_setWidth_64, write_frame (by decide) hhi,
    mem_of_writeDataMem (by decide) hu, toNat_setWidth_64, write_frame (by decide) hlo]

theorem BaseIsa.execSD_frame (h : (execSD w).run s = .ok b t)
    (hi : ¬AtAddress (getImmS w T + s.regs.getValue (ExtensionBase.getRs1 w)) 8 i) :
    t.mem i = s.mem i := by
  rw [execSD, run_bind_ok (run_getValue s _), run_bind_ok (run_getValue s _)] at h
  exact writeDouble_frame h hi

theorem CExtension.execStoreDouble_frame {imm : BitVec 32}
    (h : (execStoreDouble rs1 rs2 imm).run s = .ok b t)
    (hi : ¬AtAddress (imm.setWidth T.xlen + s.regs.getValue rs1) 8 i) : t.mem i = s.mem i := by
  rw [execStoreDouble, run_bind_ok (run_getValue s _), run_bind_ok (run_getValue s _)] at h
  exact writeDouble_frame h hi

/-- The memory after the write of a word at the low half of an address. -/
def narrowWrite (a : BitVec T.xlen) (v : BitVec 32) (mem : Mem) : Mem :=
  if (a.setWidth 32).toNat < Memory.SIZE then (Write.ofNum (a.setWidth 32).toNat 4 v).apply mem
  else mem

theorem mem_of_narrowWrite {a : BitVec T.xlen} {v : BitVec 32}
    (h : (writeDataMem ((a.setWidth 32).setWidth 64) v 4).run s = .ok () t) :
    t.mem = narrowWrite a v s.mem := by
  rw [mem_of_writeDataMem (by decide) h, BitVec.toNat_setWidth_of_le (by decide)]
  rfl

theorem CExtension.execStoreWord_mem {imm : BitVec 32}
    (hi : imm.signExtend T.xlen = imm.setWidth T.xlen)
    (h : (execStoreWord rs1 rs2 imm).run s = .ok b t) :
    t.mem = narrowWrite (imm.setWidth T.xlen + s.regs.getValue rs1)
      ((s.regs.getValue rs2).setWidth 32) s.mem := by
  rw [execStoreWord, run_bind_ok (run_getValue s _), run_bind_ok (run_getValue s _), hi] at h
  obtain ⟨x, u, hu, ht⟩ := bind_eq_ok h
  cases ht
  exact mem_of_narrowWrite hu

/-! ## The atomics -/

/-- What a read leaves for the rest of an atomic. -/
theorem readDataMem_frame {a : BitVec 64} {x : BitVec 32}
    (h : (readDataMem a size).run s = .ok x t) :
    t.mem = s.mem ∧ t.regs.getValue = s.regs.getValue := by
  have hm := keeps_readDataMem (f := fun s : System T => s.mem)
    ⟨fun _ _ => rfl, fun _ _ hb => congrArg Memory.mem hb⟩ a size s
  have hr := keeps_readDataMem (f := fun s : System T => s.regs.getValue)
    ⟨fun _ _ => rfl, fun _ _ _ => rfl⟩ a size s
  rw [h] at hm hr
  exact ⟨hm, hr⟩

/-- A read of the word of an atomic finds the loaded word. -/
theorem loadedWord_eq {x : BitVec 32}
    (h : (readDataMem (((addr w s).setWidth 32).setWidth 64) 4).run s = .ok x t) :
    loadedWord w s = x := by
  rw [loadedWord, h]

/-- The operand after a read that has not changed the registers. -/
theorem loadedOperand_eq (hr : t.regs.getValue = s.regs.getValue) :
    ((t.setReg (getRd w) ((loadedWord w s).signExtend T.xlen)).regs.getValue
      (getRs2 w)).setWidth 32 = loadedOperand w s := by
  rw [loadedOperand, System.setReg, System.setReg,
    Registers.getValue_setValue _ _ _ _ (getRs2_lt w),
    Registers.getValue_setValue _ _ _ _ (getRs2_lt w), hr]

theorem execAmo_mem {op : BitVec 32 → BitVec 32 → BitVec 32}
    (h : (execAmo w op).run s = .ok b t) :
    t.mem = narrowWrite (addr w s) (op (loadedWord w s) (loadedOperand w s)) s.mem := by
  have hget : (getValue (getRs1 w)).run s = .ok (addr w s) s := rfl
  rw [execAmo, run_bind_ok hget] at h
  obtain ⟨x, u, hu, h⟩ := bind_eq_ok h
  obtain rfl := loadedWord_eq hu
  obtain ⟨hm, hr⟩ := readDataMem_frame hu
  rw [run_bind_ok (run_setReg u _ _), run_bind_ok (run_getValue _ _), loadedOperand_eq hr] at h
  obtain ⟨y, v, hv, ht⟩ := bind_eq_ok h
  cases ht
  rw [mem_of_narrowWrite hv, ← hm]
  rfl

/-- `AMOSWAP` stores the operand and writes the loaded word to `rd` and to `rs2`. -/
theorem execAMOSWAP_ok (h : (execAMOSWAP w).run s = .ok b t) :
    t.mem = narrowWrite (addr w s) (loadedOperand w s) s.mem ∧
      ∀ n < 32, t.regs.getValue n =
        if n ≠ 0 ∧ (n = getRs2 w ∨ n = getRd w) then (loadedWord w s).signExtend T.xlen
        else s.regs.getValue n := by
  have hget : (getValue (getRs1 w)).run s = .ok (addr w s) s := rfl
  rw [execAMOSWAP, run_bind_ok hget] at h
  obtain ⟨x, u, hu, h⟩ := bind_eq_ok h
  obtain rfl := loadedWord_eq hu
  obtain ⟨hm, hr⟩ := readDataMem_frame hu
  rw [run_bind_ok (run_setReg u _ _), run_bind_ok (run_getValue _ _), loadedOperand_eq hr,
    run_bind_ok (run_setReg _ _ _)] at h
  obtain ⟨y, v, hv, ht⟩ := bind_eq_ok h
  cases ht
  have hregs := keeps_writeDataMem (f := fun s : System T => s.regs) (fun _ _ => rfl)
    (((addr w s).setWidth 32).setWidth 64) (loadedOperand w s) 4
    ((u.setReg (getRd w) ((loadedWord w s).signExtend T.xlen)).setReg (getRs2 w)
      ((loadedWord w s).signExtend T.xlen))
  rw [hv] at hregs
  refine ⟨?_, fun n hn => ?_⟩
  · rw [mem_of_narrowWrite hv, ← hm]
    rfl
  · rw [show t.regs = _ from hregs, System.setReg, System.setReg,
      Registers.getValue_setValue _ _ _ _ hn, Registers.getValue_setValue _ _ _ _ hn, hr]
    grind

/-- A reserved `SC` stores the operand. -/
theorem execSC_mem (hr : Reserved w s) (h : (execSC w).run s = .ok b t) :
    t.mem = narrowWrite (addr w s) (operand w s) s.mem := by
  obtain ⟨u, hu, rfl⟩ := execSC_reserved hr h
  have hm := mem_of_narrowWrite hu
  exact hm

end Stores

/-! ## Whole words -/

theorem pcNext_ok {x : Sim T Bool} {r : Bool × Bool} (h : (pcNext x).run s = .ok r t) :
    ∃ c, x.run s = .ok c t := by
  obtain ⟨c, u, hu, ht⟩ := bind_eq_ok h
  cases ht
  exact ⟨c, hu⟩

/-- The PC increment does not touch the memory. -/
theorem execDecoded_base_ok {code : OpCodes} (h : (execDecoded w (.base code)).run s = .ok b t) :
    ∃ r u, (BaseIsa.execInstruction w code).run s = .ok r u ∧ t.mem = u.mem := by
  obtain ⟨r, u, hu, ht⟩ := bind_eq_ok h
  refine ⟨r, u, hu, ?_⟩
  obtain ⟨c, bp⟩ := r
  cases c <;> cases ht <;> rfl

theorem execDecoded_c_ok {code : OpCCodes} (h : (execDecoded w (.c code)).run s = .ok b t) :
    ∃ r u, (CExtension.execInstruction w code).run s = .ok r u ∧ t.mem = u.mem := by
  obtain ⟨r, u, hu, ht⟩ := bind_eq_ok h
  refine ⟨r, u, hu, ?_⟩
  obtain ⟨c, bp⟩ := r
  cases c <;> cases ht <;> rfl

/-- A store runs its function. -/
theorem execDecoded_store {op : RiscvTlm.StoreOp} (ho : storeOp d = some op)
    (h : (execDecoded w d).run s = .ok b t) :
    ∃ c u, (op.exec w).run s = .ok c u ∧ t.mem = u.mem := by
  cases d with
  | base code =>
    obtain ⟨r, u, hu, hm⟩ := execDecoded_base_ok h
    cases code
    case OP_SB | OP_SH | OP_SW | OP_SD =>
      cases ho
      obtain ⟨c, hx⟩ := pcNext_ok hu
      exact ⟨c, u, hx, hm⟩
    all_goals cases ho
  | c code =>
    obtain ⟨r, u, hu, hm⟩ := execDecoded_c_ok h
    cases code
    case OP_C_SW | OP_C_SWSP | OP_C_SD | OP_C_SDSP =>
      cases ho
      obtain ⟨c, hx⟩ := pcNext_ok hu
      exact ⟨c, u, hx, hm⟩
    all_goals cases ho
  | m code => cases ho
  | a code => cases ho
  | none => cases ho

/-- An atomic runs its function. -/
theorem execDecoded_atomic {code : OpACodes} (h : (execDecoded w (.a code)).run s = .ok b t) :
    ∃ u, (execInstruction w code).run s = .ok true u ∧ t.mem = u.mem ∧
      t.regs.getValue = u.regs.getValue := by
  obtain ⟨u, hu, rfl⟩ := execDecoded_a_ok h
  exact ⟨u, hu, rfl, rfl⟩

theorem mem_of_narrowStore {a : BitVec T.xlen} {v : BitVec 32}
    (hn : narrowStore w s d = some (a, v)) (h : (execDecoded w d).run s = .ok b t) :
    t.mem = narrowWrite a v s.mem := by
  cases d with
  | base code => cases hn
  | m code => cases hn
  | none => cases hn
  | c code =>
    cases code
    case OP_C_SW =>
      cases hn
      have ho : storeOp (.c .OP_C_SW) = some .C_SW := rfl
      obtain ⟨c, u, hu, hm⟩ := execDecoded_store ho h
      exact hm.trans (CExtension.execStoreWord_mem (CExtension.signExtend_getImmL w _) hu)
    case OP_C_SWSP =>
      cases hn
      have ho : storeOp (.c .OP_C_SWSP) = some .C_SWSP := rfl
      obtain ⟨c, u, hu, hm⟩ := execDecoded_store ho h
      exact hm.trans (CExtension.execStoreWord_mem (CExtension.signExtend_getImmCSS w _) hu)
    all_goals cases hn
  | a code =>
    obtain ⟨u, hu, hm, -⟩ := execDecoded_atomic h
    cases code
    case OP_A_LR | OP_A_ERROR => cases hn
    case OP_A_SC =>
      obtain ⟨hr, hv'⟩ := Option.ite_none_right_eq_some.mp hn
      obtain ⟨c, v, hv, he⟩ := bind_eq_ok hu
      cases he
      cases hv'
      exact hm.trans (execSC_mem hr hv)
    case OP_A_AMOSWAP =>
      obtain ⟨c, v, hv, he⟩ := bind_eq_ok hu
      cases he
      cases hn
      exact hm.trans (execAMOSWAP_ok hv).1
    all_goals
      obtain ⟨c, u', hv, he⟩ := bind_eq_ok hu
      cases he
      have hx := execAmo_mem (show (execAmo w _).run s = .ok c u from hv)
      cases hn
      exact hm.trans hx

/-- Every other store changes bytes at its effective address only. -/
theorem frame_of_wideStore {a : BitVec T.xlen} {size i : ℕ} (hn : narrowStore w s d = none)
    (ht : target w s d = some (a, size)) (h : (execDecoded w d).run s = .ok b t)
    (hi : ¬AtAddress a size i) : t.mem i = s.mem i := by
  cases d with
  | base code =>
    obtain ⟨op, ho, he⟩ := Option.map_eq_some_iff.mp ht
    obtain ⟨c, u, hu, hm⟩ := execDecoded_store ho h
    rw [hm]
    cases he
    cases code
    case OP_SB | OP_SH | OP_SW =>
      cases ho
      exact BaseIsa.execStore_frame (by decide) hu hi
    case OP_SD =>
      cases ho
      exact BaseIsa.execSD_frame hu hi
    all_goals cases ho
  | c code =>
    obtain ⟨op, ho, he⟩ := Option.map_eq_some_iff.mp ht
    obtain ⟨c, u, hu, hm⟩ := execDecoded_store ho h
    rw [hm]
    cases he
    cases code
    case OP_C_SD | OP_C_SDSP =>
      cases ho
      exact CExtension.execStoreDouble_frame hu hi
    case OP_C_SW | OP_C_SWSP => cases hn
    all_goals cases ho
  | m code => cases ht
  | none => cases ht
  | a code =>
    cases code
    case OP_A_SC =>
      obtain ⟨u, hu, hm, -⟩ := execDecoded_atomic h
      obtain ⟨c, v, hv, he⟩ := bind_eq_ok hu
      cases he
      have hr : ¬Reserved w s := fun hr =>
        absurd ((if_pos hr).symm.trans hn) (Option.some_ne_none _)
      rw [run_execSC_not_reserved hr] at hv
      cases hv
      rw [hm]
      rfl
    case OP_A_LR | OP_A_ERROR => cases ht
    all_goals cases hn

/-! ## Footprints -/

/-- `w` holds a defined instruction with the footprint `fp` in a state with the registers `x`: a
32-bit instruction, a compressed one below any halfword, or a doubleword atomic. -/
inductive HasFootprint (T : CpuType) (x : Reg → BitVec T.xlen) (w : BitVec 32) :
    Footprint T.xlen → Prop
  | instr (i : Instr) (hd : i.Defined T.xlen) (hw : w = encode i) :
      HasFootprint T x w (footprint x i)
  | compressed (c : CInstr) (hd : c.Defined T.xlen) (hw : w.setWidth 16 = c.encode) :
      HasFootprint T x w (footprint x c.expand)
  | double (hT : T = .RV64) (hw : DoubleWord w) (hne : AExtension.decode w ≠ .OP_A_ERROR) :
      HasFootprint T x w ⟨some (w.extractLsb' 7 5),
        if AExtension.decode w = .OP_A_LR then none else some (x (w.extractLsb' 15 5), 8)⟩

/-- The footprint has the destination of the decoded word, `x0` standing for none, and the bytes it
stores. -/
structure Describes (fp : Footprint T.xlen) (w : BitVec 32) (s : System T) (d : Decoded) :
    Prop where
  rd : (fp.rd.map BitVec.toNat).getD 0 = (dest w d).getD 0
  bytes : ∀ a size, target w s d = some (a, size) →
    ∃ size', fp.bytes = some (a, size') ∧ size ≤ size' ∧ size' ≤ 8
  store : storing d = true → (target w s d).isSome

theorem target_eq_none (h : storing d = false) : target w s d = none := by
  cases d with
  | base code => cases code <;> first | rfl | cases h
  | c code => cases code <;> first | rfl | cases h
  | m code => rfl
  | a code => exact if_neg (h ▸ Bool.false_ne_true)
  | none => rfl

/-- A word that does not store. -/
theorem describes_of_not_storing {rd : Option Reg} (hs : storing d = false)
    (h : (rd.map BitVec.toNat).getD 0 = (dest w d).getD 0) : Describes ⟨rd, none⟩ w s d where
  rd := h
  bytes := fun a size ht => by
    rw [target_eq_none hs] at ht
    cases ht
  store := fun h => absurd (hs.symm.trans h) Bool.false_ne_true

theorem describes_of_target {rd : Option Reg} {a : BitVec T.xlen} {size size' : ℕ}
    (ht : target w s d = some (a, size)) (hle : size ≤ size') (h8 : size' ≤ 8)
    (h : (rd.map BitVec.toNat).getD 0 = (dest w d).getD 0) :
    Describes ⟨rd, some (a, size')⟩ w s d where
  rd := h
  bytes := fun a' size₁ he => by
    rw [ht] at he
    cases he
    exact ⟨size', rfl, hle, h8⟩
  store := fun _ => by rw [ht, Option.isSome_some]

theorem describes_encode {i : Instr} (hd : i.Defined T.xlen) (s : System T) :
    Describes (footprint (registers s) i) (encode i) s (instrCode i) := by
  have ho := operands_encode (T := T) hd
  cases i
  case lui | auipc | jal | jalr | addiw | lrW =>
    exact describes_of_not_storing rfl ho.1.symm
  case load op _ _ _ | opImm op _ _ _ | shiftImm op _ _ _ | op op _ _ _ | shiftImmW op _ _ _
      | opW op _ _ _ | mul op _ _ _ | mulW op _ _ _ | csr op _ _ _ | csrImm op _ _ _ =>
    cases op <;> exact describes_of_not_storing rfl ho.1.symm
  case branch op _ _ _ => cases op <;> exact describes_of_not_storing rfl rfl
  case fence | fenceI | ecall | ebreak | mret | sret | wfi | sfenceVma =>
    exact describes_of_not_storing rfl rfl
  case store op rs1 rs2 imm =>
    have ha : BaseIsa.getImmS (encode (.store op rs1 rs2 imm)) T +
        s.regs.getValue (getRs1 (encode (.store op rs1 rs2 imm))) =
          registers s rs1 + imm.signExtend T.xlen := by
      rw [ho.1, ho.2.2, BitVec.add_comm]
      rfl
    have ht : target (encode (.store op rs1 rs2 imm)) s (instrCode (.store op rs1 rs2 imm)) =
        some (registers s rs1 + imm.signExtend T.xlen, op.width) := by
      rw [← ha]
      cases op <;> rfl
    refine describes_of_target ht le_rfl ?_ ?_
    · cases op <;> decide
    · cases op <;> rfl
  case scW aqrl rd rs1 rs2 =>
    have ha : addr (encode (.scW aqrl rd rs1 rs2)) s = registers s rs1 := by
      rw [addr, ho.2.1]
      rfl
    exact describes_of_target (congrArg (fun a => some (a, 4)) ha) le_rfl (by decide) ho.1.symm
  case amoW op aqrl rd rs1 rs2 =>
    have ha : addr (encode (.amoW op aqrl rd rs1 rs2)) s = registers s rs1 := by
      rw [addr, ho.2.1]
      rfl
    have ht : target (encode (.amoW op aqrl rd rs1 rs2)) s (instrCode (.amoW op aqrl rd rs1 rs2)) =
        some (registers s rs1, 4) := by
      rw [← ha]
      cases op <;> rfl
    refine describes_of_target ht le_rfl (by decide) ?_
    cases op <;> exact ho.1.symm

theorem describes_compressed {c : CInstr} (hd : c.Defined T.xlen) (h : w.setWidth 16 = c.encode)
    (s : System T) :
    Describes (footprint (registers s) c.expand) w s (.c (compressedCode c)) := by
  have ho := coperands_encode hd h
  cases c
  case addi4spn | lw | ld | addi | addiw | li | addi16sp | lui | srli | srai | slli | andi | sub
      | xor | or | and | subw | addw | lwsp | ldsp | mv | add =>
    exact describes_of_not_storing rfl ho.1.symm
  case jal | j | beqz | bnez | jr | ebreak | jalr => exact describes_of_not_storing rfl rfl
  case sw rs1 rs2 uimm =>
    have ha : RiscvTlm.StoreOp.C_SW.addr w s =
        registers s rs1.reg + (place 12 2 uimm).signExtend T.xlen := by
      rw [signExtend_displacement uimm _ (by decide), ← ho.2.2, BitVec.add_comm, registers, ← ho.1]
      rfl
    exact describes_of_target (congrArg (fun a => some (a, 4)) ha) le_rfl (by decide) rfl
  case sd rs1 rs2 uimm =>
    have ha : RiscvTlm.StoreOp.C_SD.addr w s =
        registers s rs1.reg + (place 12 3 uimm).signExtend T.xlen := by
      rw [signExtend_displacement uimm _ (by decide), ← ho.2.2, BitVec.add_comm, registers, ← ho.1]
      rfl
    exact describes_of_target (congrArg (fun a => some (a, 8)) ha) le_rfl (by decide) rfl
  case swsp rs2 uimm =>
    have ha : RiscvTlm.StoreOp.C_SWSP.addr w s =
        registers s 2 + (place 12 2 uimm).signExtend T.xlen := by
      rw [signExtend_displacement uimm _ (by decide), ← ho.2, BitVec.add_comm]
      rfl
    exact describes_of_target (congrArg (fun a => some (a, 4)) ha) le_rfl (by decide) rfl
  case sdsp rs2 uimm =>
    have ha : RiscvTlm.StoreOp.C_SDSP.addr w s =
        registers s 2 + (place 12 3 uimm).signExtend T.xlen := by
      rw [signExtend_displacement uimm _ (by decide), ← ho.2, BitVec.add_comm]
      rfl
    exact describes_of_target (congrArg (fun a => some (a, 8)) ha) le_rfl (by decide) rfl

theorem describes_double (hne : AExtension.decode w ≠ .OP_A_ERROR) (s : System T) :
    Describes ⟨some (w.extractLsb' 7 5), if AExtension.decode w = .OP_A_LR then none
      else some (registers s (w.extractLsb' 15 5), 8)⟩ w s (.a (AExtension.decode w)) := by
  have hrd : (w.extractLsb' 7 5).toNat = getRd w := by
    rw [getRd, toNat_range _ (by decide), BitVec.extractLsb'_toNat, Nat.shiftRight_eq_div_pow]
  have hrs1 : registers s (w.extractLsb' 15 5) = addr w s := by
    rw [registers, addr, getRs1, toNat_range _ (by decide), BitVec.extractLsb'_toNat,
      Nat.shiftRight_eq_div_pow]
  have hdest : ((some (w.extractLsb' 7 5)).map BitVec.toNat).getD 0 =
      (dest w (.a (AExtension.decode w))).getD 0 := by
    generalize AExtension.decode w = code at hne ⊢
    cases code
    case OP_A_ERROR => exact absurd rfl hne
    all_goals exact hrd
  by_cases hlr : AExtension.decode w = .OP_A_LR
  · rw [if_pos hlr, hlr]
    rw [hlr] at hdest
    exact describes_of_not_storing rfl hdest
  · rw [if_neg hlr, hrs1]
    have ht : target w s (.a (AExtension.decode w)) = some (addr w s, 4) := by
      generalize AExtension.decode w = code at hlr hne ⊢
      cases code
      case OP_A_ERROR => exact absurd rfl hne
      case OP_A_LR => exact absurd rfl hlr
      all_goals rfl
    exact describes_of_target ht (by decide) le_rfl hdest

/-- The footprint of a word describes what the code writes. -/
theorem HasFootprint.describes {fp : Footprint T.xlen} (h : HasFootprint T (registers s) w fp) :
    Describes fp w s (decodeCascade T w) := by
  cases h with
  | instr i hd hw =>
    rw [hw, decodeCascade_encode]
    exact describes_encode hd s
  | compressed c hd hw =>
    rw [decodeCascade_c (decode_compressed hd hw) (opcode_compressed hw)
      (compressedCode_ne_error c)]
    exact describes_compressed hd hw s
  | double hT hw hne =>
    rw [decodeCascade_atomic hw.opcode (.inr hw.funct3) hne]
    exact describes_double hne s

/-! ## The frame -/

/-- Nothing but the footprint has changed from `s` to `t`. -/
structure Framed (fp : Footprint T.xlen) (s t : System T) : Prop where
  register : ∀ r : Reg, r ≠ 0 → fp.rd ≠ some r → registers t r = registers s r
  zero : registers t 0 = 0
  memory : ∀ i, ¬fp.Covers i → t.mem i = s.mem i

/-- `AMOSWAP` overwrites `rs2`: it is a register besides the destination, and does not hold the
word loaded already. -/
def StrayRegister (w : BitVec 32) (s : System T) : Prop :=
  decodeCascade T w = .a .OP_A_AMOSWAP ∧ getRs2 w ≠ 0 ∧ getRs2 w ≠ getRd w ∧
    s.regs.getValue (getRs2 w) ≠ (loadedWord w s).signExtend T.xlen

/-- A store goes astray: its address does not fit the `std::uint32_t` it is kept in, and at the low
half of it the memory changes. -/
def StrayStore (w : BitVec 32) (s : System T) : Prop :=
  ∃ a v, narrowStore w s (decodeCascade T w) = some (a, v) ∧ 2 ^ 32 ≤ a.toNat ∧
    narrowWrite a v s.mem ≠ s.mem

section Frame

variable {fp : Footprint T.xlen}

/-- A register that a word without an exception does not write. -/
theorem keeps_getValue_of_not_written {n : ℕ} (hr : raiseOf T w d = none) (hn : n < 32)
    (hw : n ∉ written w d) : Keeps (fun s : System T => s.regs.getValue n) (execDecoded w d) := by
  refine keeps_execDecoded_of ⟨fun _ _ => rfl, fun _ _ _ => rfl⟩ (fun m hm s v => ?_)
    (.inr fun _ _ => rfl) (.inr fun _ _ => rfl) (fun c _ s v => Registers.getValue_setCSR _ _ _ _)
    (.inl hr)
  exact Registers.getValue_setValue_ne _ _ hn fun he => hw (he ▸ hm)

/-- The memory after a word that does not store. -/
theorem keeps_mem_of_not_storing (hr : raiseOf T w d = none) (hs : storing d = false) :
    Keeps (fun s : System T => s.mem) (execDecoded w d) :=
  keeps_execDecoded_of ⟨fun _ _ => rfl, fun _ _ hb => congrArg Memory.mem hb⟩
    (fun _ _ _ _ => rfl) (.inl hs) (.inr fun _ _ => rfl) (fun _ _ _ _ => rfl) (.inl hr)

theorem Describes.rd_eq (hd : Describes fp w s d) {r : Reg} (hr : r ≠ 0)
    (h : (dest w d).getD 0 = r.toNat) : fp.rd = some r := by
  have hrd := hd.rd.trans h
  cases hfp : fp.rd with
  | none =>
    rw [hfp] at hrd
    exact absurd (BitVec.eq_of_toNat_eq hrd.symm) hr
  | some r' =>
    rw [hfp] at hrd
    rw [BitVec.eq_of_toNat_eq (show r'.toNat = r.toNat from hrd)]

/-- Only `AMOSWAP` writes a register besides its destination. -/
theorem written_eq_dest (hs : d ≠ .a .OP_A_AMOSWAP) : written w d = (dest w d).toList := by
  unfold written
  split
  · exact absurd rfl hs
  · rfl

theorem register_frame (hd : Describes fp w s d) (hr : raiseOf T w d = none)
    (h : (execDecoded w d).run s = .ok b t) (hs : d ≠ .a .OP_A_AMOSWAP) {r : Reg} (hr0 : r ≠ 0)
    (hfp : fp.rd ≠ some r) : registers t r = registers s r := by
  have hw : r.toNat ∉ written w d := by
    rw [written_eq_dest hs, Option.mem_toList]
    intro hm
    exact hfp (hd.rd_eq hr0 (congrArg (Option.getD · 0) hm))
  exact (keeps_getValue_of_not_written hr r.isLt hw).eq_ok h

/-- `AMOSWAP` keeps the registers outside its destination when it does not change `rs2`. -/
theorem register_framed_amoswap_iff (hd : Describes fp w s (.a .OP_A_AMOSWAP))
    (h : (execDecoded w (.a .OP_A_AMOSWAP)).run s = .ok b t) :
    (∀ r : Reg, r ≠ 0 → fp.rd ≠ some r → registers t r = registers s r) ↔
      ¬(getRs2 w ≠ 0 ∧ getRs2 w ≠ getRd w ∧
        s.regs.getValue (getRs2 w) ≠ (loadedWord w s).signExtend T.xlen) := by
  obtain ⟨u, hu, -, hregs⟩ := execDecoded_atomic h
  obtain ⟨c, v, hv, he⟩ := bind_eq_ok hu
  cases he
  have hval := (execAMOSWAP_ok hv).2
  rw [← hregs] at hval
  have hlt := getRs2_lt w
  have hr2 : (BitVec.ofNat 5 (getRs2 w)).toNat = getRs2 w := by
    rw [BitVec.toNat_ofNat, Nat.mod_eq_of_lt hlt]
  constructor
  · rintro hf ⟨h0, hne, hold⟩
    have h0' : BitVec.ofNat 5 (getRs2 w) ≠ 0 := fun e =>
      h0 (hr2.symm.trans (congrArg BitVec.toNat e))
    have hfp : fp.rd ≠ some (BitVec.ofNat 5 (getRs2 w)) := by
      intro e
      have hrd := hd.rd
      rw [e] at hrd
      exact hne (hr2.symm.trans hrd)
    have hreg := hf _ h0' hfp
    rw [registers, registers, hr2, hval _ hlt, if_pos ⟨h0, .inl rfl⟩] at hreg
    exact hold hreg.symm
  · intro hn r hr0 hfp
    have h0 : r.toNat ≠ 0 := fun e => hr0 (BitVec.eq_of_toNat_eq e)
    have hrd : r.toNat ≠ getRd w := fun e => hfp (hd.rd_eq hr0 e.symm)
    rw [registers, registers, hval _ r.isLt]
    by_cases h2 : r.toNat = getRs2 w
    · rw [if_pos ⟨h0, .inl h2⟩, h2]
      by_contra hold
      exact hn ⟨h2 ▸ h0, h2 ▸ hrd, fun e => hold e.symm⟩
    · rw [if_neg fun hc => (not_or.mpr ⟨h2, hrd⟩) hc.2]

/-- The registers outside the destination keep their values unless `AMOSWAP` changes `rs2`. -/
theorem register_framed_iff (hd : Describes fp w s d) (hr : raiseOf T w d = none)
    (h : (execDecoded w d).run s = .ok b t) :
    (∀ r : Reg, r ≠ 0 → fp.rd ≠ some r → registers t r = registers s r) ↔
      ¬(d = .a .OP_A_AMOSWAP ∧ getRs2 w ≠ 0 ∧ getRs2 w ≠ getRd w ∧
        s.regs.getValue (getRs2 w) ≠ (loadedWord w s).signExtend T.xlen) := by
  by_cases hs : d = .a .OP_A_AMOSWAP
  · subst hs
    rw [register_framed_amoswap_iff hd h, and_iff_right rfl]
  · exact ⟨fun _ hc => hs hc.1, fun _ r hr0 hfp => register_frame hd hr h hs hr0 hfp⟩

/-- A store with a narrow address writes a word there. -/
theorem target_of_narrowStore {a : BitVec T.xlen} {v : BitVec 32}
    (hn : narrowStore w s d = some (a, v)) : target w s d = some (a, 4) := by
  cases d with
  | base code => cases hn
  | m code => cases hn
  | none => cases hn
  | c code =>
    cases code
    case OP_C_SW | OP_C_SWSP =>
      cases hn
      rfl
    all_goals cases hn
  | a code =>
    cases code
    case OP_A_SC =>
      obtain ⟨-, hv⟩ := Option.ite_none_right_eq_some.mp hn
      cases hv
      rfl
    case OP_A_LR | OP_A_ERROR => cases hn
    all_goals
      cases hn
      rfl

/-- Below `2 ^ 32` a narrow write is one at the address. -/
theorem narrowWrite_frame {a : BitVec T.xlen} {i : ℕ} (ha : a.toNat < 2 ^ 32)
    (hi : ¬AtAddress a 4 i) (v : BitVec 32) (mem : Mem) : narrowWrite a v mem i = mem i := by
  have hlo : (a.setWidth 32).toNat = a.toNat := by
    rw [BitVec.toNat_setWidth, Nat.mod_eq_of_lt ha]
  rw [narrowWrite, hlo]
  exact write_frame (by decide) hi v mem

/-- From `2 ^ 32` on a narrow write changes no byte at the address. -/
theorem narrowWrite_astray {a : BitVec T.xlen} {size i : ℕ} (hsize : size ≤ 8)
    (ha : 2 ^ 32 ≤ a.toNat) (hi : AtAddress a size i) (v : BitVec 32) (mem : Mem) :
    narrowWrite a v mem i = mem i := by
  unfold narrowWrite
  by_cases hlo : (a.setWidth 32).toNat < Memory.SIZE
  · rw [if_pos hlo]
    exact Write.apply_of_not_covers fun hc => not_atAddress_of_narrow hsize ha hlo hc.2 hi
  · rw [if_neg hlo]

/-- A store with a narrow address keeps to the bytes at its address when it does not go astray. -/
theorem memory_framed_narrow_iff {a : BitVec T.xlen} {v : BitVec 32} {size : ℕ} (hle : 4 ≤ size)
    (h8 : size ≤ 8) (mem : Mem) :
    (∀ i, ¬AtAddress a size i → narrowWrite a v mem i = mem i) ↔
      ¬(2 ^ 32 ≤ a.toNat ∧ narrowWrite a v mem ≠ mem) := by
  constructor
  · rintro hf ⟨hbig, hne⟩
    refine hne (funext fun i => ?_)
    by_cases hi : AtAddress a size i
    · exact narrowWrite_astray h8 hbig hi v mem
    · exact hf i hi
  · intro hns i hi
    by_cases hbig : 2 ^ 32 ≤ a.toNat
    · by_contra hne
      exact hns ⟨hbig, fun he => hne (congrFun he i)⟩
    · exact narrowWrite_frame (by omega) (fun hc => hi (hc.mono hle)) v mem

/-- The memory outside the footprint keeps its bytes unless a store goes astray. -/
theorem memory_framed_iff (hd : Describes fp w s d) (hr : raiseOf T w d = none)
    (h : (execDecoded w d).run s = .ok b t) :
    (∀ i, ¬fp.Covers i → t.mem i = s.mem i) ↔
      ¬∃ a v, narrowStore w s d = some (a, v) ∧ 2 ^ 32 ≤ a.toNat ∧
        narrowWrite a v s.mem ≠ s.mem := by
  by_cases hs : storing d = true
  · obtain ⟨⟨a, size⟩, ht⟩ := Option.isSome_iff_exists.mp (hd.store hs)
    obtain ⟨size', hb, hle, h8⟩ := hd.bytes a size ht
    have hcov (i : ℕ) : fp.Covers i ↔ AtAddress a size' i := by
      constructor
      · rintro ⟨a', n, he, hk⟩
        rw [hb] at he
        cases he
        exact hk
      · exact fun hk => ⟨a, size', hb, hk⟩
    simp only [hcov]
    cases hn : narrowStore w s d with
    | none =>
      constructor
      · rintro - ⟨a', v, he, -⟩
        cases he
      · intro _ i hi
        exact frame_of_wideStore hn ht h fun hc => hi (hc.mono hle)
    | some x =>
      obtain ⟨a', v⟩ := x
      obtain ⟨rfl, rfl⟩ : a' = a ∧ 4 = size := by
        rw [target_of_narrowStore hn] at ht
        cases ht
        exact ⟨rfl, rfl⟩
      rw [mem_of_narrowStore hn h, memory_framed_narrow_iff hle h8]
      refine not_congr ⟨fun hns => ⟨a', v, rfl, hns⟩, ?_⟩
      rintro ⟨a₁, v₁, he, hns⟩
      cases he
      exact hns
  · have hs' : storing d = false := Bool.eq_false_iff.mpr hs
    have hm : t.mem = s.mem := (keeps_mem_of_not_storing hr hs').eq_ok h
    rw [hm]
    refine ⟨?_, fun _ _ _ => rfl⟩
    rintro - ⟨a, v, hn, -⟩
    have ht := target_of_narrowStore hn
    rw [target_eq_none hs'] at ht
    cases ht

/-- A step without an exception keeps to the footprint of its instruction exactly when it is not an
`AMOSWAP` that changes `rs2` and not a store whose truncated address is in the memory. -/
theorem framed_iff (hf : fetch.run s = .ok w s₁) (hs : cpuStep.run s = .ok b t)
    (hl : t.exceptionLog = s.exceptionLog) (hp : HasFootprint T (registers s) w fp) :
    Framed fp s t ↔ ¬StrayRegister w s₁ ∧ ¬StrayStore w s₁ := by
  obtain ⟨hregs, -, hlog, hmem⟩ := fetch_frame hf
  have hreg : registers s₁ = registers s := by
    funext r
    rw [registers, registers, hregs]
  have hm : s₁.mem = s.mem := congrArg Memory.mem hmem
  have hd : Describes fp w s₁ (decodeCascade T w) := by
    rw [← hreg] at hp
    exact hp.describes
  rw [run_cpuStep hf] at hs
  have hr : raiseOf T w (decodeCascade T w) = none := by
    refine raiseOf_eq_none (s := s₁) ?_
    rw [hs, endState_ok, hl, hlog]
  have h1 := register_framed_iff hd hr hs
  have h2 := memory_framed_iff hd hr hs
  rw [hreg] at h1
  rw [hm] at h2
  constructor
  · intro h
    refine ⟨h1.mp h.register, ?_⟩
    rintro ⟨a, v, hn, hbig, hne⟩
    exact h2.mp h.memory ⟨a, v, hn, hbig, hm ▸ hne⟩
  · rintro ⟨hsr, hss⟩
    refine ⟨h1.mpr hsr, ?_, h2.mpr ?_⟩
    · exact Registers.getValue_zero t.regs
    · rintro ⟨a, v, hn, hbig, hne⟩
      exact hss ⟨a, v, hn, hbig, hm ▸ hne⟩

/-- `addi x1, x0, 1`. -/
theorem framed_addi :
    Framed (footprint (registers (start .RV32 [0x00100093])) (.opImm .addi 1 0 1))
      (start .RV32 [0x00100093]) (endState (cpuStep.run (start .RV32 [0x00100093]))) := by
  have hf : fetch.run (start .RV32 [0x00100093]) =
      .ok 0x00100093 (endState (fetch.run (start .RV32 [0x00100093]))) := rfl
  have hs : cpuStep.run (start .RV32 [0x00100093]) =
      .ok false (endState (cpuStep.run (start .RV32 [0x00100093]))) := rfl
  refine (framed_iff hf hs rfl (.instr _ (by decide) (by decide))).mpr ⟨?_, ?_⟩
  · exact fun h => absurd h.1 (by decide)
  · rintro ⟨a, v, hn, -⟩
    cases hn

/-- `amoswap.w x3, x2, (x0)` writes the loaded word to `x2`. -/
theorem not_framed_amoswap :
    HasFootprint .RV32 (registers (start .RV32 [0x082021AF])) 0x082021AF
        (footprint (registers (start .RV32 [0x082021AF])) (.amoW .swap 0 3 0 2)) ∧
      cpuStep.run (start .RV32 [0x082021AF]) =
        .ok false (endState (cpuStep.run (start .RV32 [0x082021AF]))) ∧
      (endState (cpuStep.run (start .RV32 [0x082021AF]))).exceptionLog = [] ∧
      ¬Framed (footprint (registers (start .RV32 [0x082021AF])) (.amoW .swap 0 3 0 2))
        (start .RV32 [0x082021AF]) (endState (cpuStep.run (start .RV32 [0x082021AF]))) := by
  refine ⟨.instr _ (by decide) (by decide), rfl, rfl, fun h => ?_⟩
  exact absurd (h.register 2 (by decide) (by decide)) (by decide)

end Frame

end RiscvTlm
