import RiscvTlm.DataAccess

/-!
# Loads and stores

`StoreOp` and `LoadOp` are the stores and loads of the base and the compressed instruction set, with
their widths, registers and displacements. A store whose bytes lie inside the memory writes the low
bytes of its register there, and a load puts the bytes it finds there into its register, whatever
the alignment. The doubleword operations are two accesses of four bytes.
-/

namespace RiscvTlm

open Bytes ByteMemory Prog

variable {T : CpuType} {s t : System T} {w : BitVec 32}

/-! ## Immediates below the sign bit -/

namespace CExtension

theorem getLsbD_field (w : BitVec 32) {hi lo pos : ℕ} (h : pos + (hi - lo + 1) ≤ 31) :
    (field w hi lo pos).getLsbD 31 = false := by
  have hr : ¬31 - pos < hi - lo + 1 := by omega
  rw [field, BitVec.getLsbD_setWidth, BitVec.getLsbD_shiftLeft, BitField.getLsbD_range]
  simp [hr]

theorem signExtend_getImmL (w : BitVec 32) (n : ℕ) :
    (getImmL w).signExtend n = (getImmL w).setWidth n := by
  refine BitVec.signExtend_eq_setWidth_of_msb_false ?_
  rw [BitVec.msb_eq_getLsbD_last, getImmL, BitVec.getLsbD_or, BitVec.getLsbD_or,
    getLsbD_field w (by decide), getLsbD_field w (by decide), getLsbD_field w (by decide)]
  rfl

theorem signExtend_getImmCSS (w : BitVec 32) (n : ℕ) :
    (getImmCSS w).signExtend n = (getImmCSS w).setWidth n := by
  refine BitVec.signExtend_eq_setWidth_of_msb_false ?_
  rw [BitVec.msb_eq_getLsbD_last, getImmCSS, BitVec.getLsbD_or, getLsbD_field w (by decide),
    getLsbD_field w (by decide)]
  rfl

end CExtension

/-! ## Stores -/

/-- The stores of the base and the compressed instruction set. -/
inductive StoreOp
  | SB | SH | SW | SD | C_SW | C_SWSP | C_SD | C_SDSP
  deriving DecidableEq, Repr

namespace StoreOp

/-- The function that executes the store. -/
def exec (w : BitVec 32) : StoreOp → Sim T Bool
  | .SB => BaseIsa.execSB w
  | .SH => BaseIsa.execSH w
  | .SW => BaseIsa.execSW w
  | .SD => BaseIsa.execSD w
  | .C_SW => CExtension.execSW w
  | .C_SWSP => CExtension.execSWSP w
  | .C_SD => CExtension.execSD w
  | .C_SDSP => CExtension.execSDSP w

/-- The number of bytes stored. -/
def width : StoreOp → ℕ
  | .SB => 1
  | .SH => 2
  | .SW | .C_SW | .C_SWSP => 4
  | .SD | .C_SD | .C_SDSP => 8

/-- The register of the base address. -/
def rs1 (w : BitVec 32) : StoreOp → ℕ
  | .SB | .SH | .SW | .SD => ExtensionBase.getRs1 w
  | .C_SW | .C_SD => CExtension.getRs1p w
  | .C_SWSP | .C_SDSP => 2

/-- The register stored. -/
def rs2 (w : BitVec 32) : StoreOp → ℕ
  | .SB | .SH | .SW | .SD => ExtensionBase.getRs2 w
  | .C_SW | .C_SD => CExtension.getRs2p w
  | .C_SWSP | .C_SDSP => CExtension.getRs2 w

/-- The displacement. -/
def imm (T : CpuType) (w : BitVec 32) : StoreOp → BitVec T.xlen
  | .SB | .SH | .SW | .SD => BaseIsa.getImmS w T
  | .C_SW => (CExtension.getImmL w).setWidth T.xlen
  | .C_SWSP => (CExtension.getImmCSS w).setWidth T.xlen
  | .C_SD => (CExtension.getImmCL w).setWidth T.xlen
  | .C_SDSP => (CExtension.getImmCSDSP w).setWidth T.xlen

/-- The effective address. -/
def addr (op : StoreOp) (w : BitVec 32) (s : System T) : BitVec T.xlen :=
  op.imm T w + s.regs.getValue (op.rs1 w)

/-- The contents of the register stored. -/
def value (op : StoreOp) (w : BitVec 32) (s : System T) : BitVec 64 :=
  (s.regs.getValue (op.rs2 w)).setWidth 64

/-- The write that the store stands for. -/
def write (op : StoreOp) (w : BitVec 32) (s : System T) : Write :=
  .ofNum (op.addr w s).toNat op.width (op.value w s)

end StoreOp

/-! ## Loads -/

/-- The loads of the base and the compressed instruction set. -/
inductive LoadOp
  | LB | LH | LW | LBU | LHU | LWU | LD | C_LW | C_LWSP | C_LD | C_LDSP
  deriving DecidableEq, Repr

namespace LoadOp

/-- The function that executes the load. -/
def exec (w : BitVec 32) : LoadOp → Sim T Bool
  | .LB => BaseIsa.execLB w
  | .LH => BaseIsa.execLH w
  | .LW => BaseIsa.execLW w
  | .LBU => BaseIsa.execLBU w
  | .LHU => BaseIsa.execLHU w
  | .LWU => BaseIsa.execLWU w
  | .LD => BaseIsa.execLD w
  | .C_LW => CExtension.execLW w
  | .C_LWSP => CExtension.execLWSP w
  | .C_LD => CExtension.execLD w
  | .C_LDSP => CExtension.execLDSP w

/-- The number of bytes loaded. -/
def width : LoadOp → ℕ
  | .LB | .LBU => 1
  | .LH | .LHU => 2
  | .LW | .LWU | .C_LW | .C_LWSP => 4
  | .LD | .C_LD | .C_LDSP => 8

/-- The destination. -/
def rd (w : BitVec 32) : LoadOp → ℕ
  | .C_LW | .C_LD => CExtension.getRdp w
  | _ => ExtensionBase.getRd w

/-- The register of the base address. -/
def rs1 (w : BitVec 32) : LoadOp → ℕ
  | .C_LW | .C_LD => CExtension.getRs1p w
  | .C_LWSP | .C_LDSP => 2
  | _ => ExtensionBase.getRs1 w

/-- The displacement. -/
def imm (T : CpuType) (w : BitVec 32) : LoadOp → BitVec T.xlen
  | .C_LW => (CExtension.getImmL w).setWidth T.xlen
  | .C_LWSP => (CExtension.getImmLWSP w).setWidth T.xlen
  | .C_LD => (CExtension.getImmCL w).setWidth T.xlen
  | .C_LDSP => (CExtension.getImmLDSP w).setWidth T.xlen
  | _ => BaseIsa.getImmI w T

/-- The effective address. -/
def addr (op : LoadOp) (w : BitVec 32) (s : System T) : BitVec T.xlen :=
  op.imm T w + s.regs.getValue (op.rs1 w)

/-- The value of the register, from the bytes found. -/
def extend (x : BitVec 64) : LoadOp → BitVec T.xlen
  | .LB => (x.setWidth 8).signExtend T.xlen
  | .LH => (x.setWidth 16).signExtend T.xlen
  | .LW | .C_LW | .C_LWSP => (x.setWidth 32).signExtend T.xlen
  | .LBU => (x.setWidth 8).setWidth T.xlen
  | .LHU => (x.setWidth 16).setWidth T.xlen
  | .LWU => (x.setWidth 32).setWidth T.xlen
  | .LD | .C_LD | .C_LDSP => x.setWidth T.xlen

/-- The bytes found, as a number. -/
def found (op : LoadOp) (w : BitVec 32) (s : System T) : BitVec 64 :=
  read 64 s.mem (op.addr w s).toNat op.width

end LoadOp

/-! ## Addresses -/

section Addresses

variable (a : BitVec T.xlen)

@[simp] theorem toNat_setWidth_64 : (a.setWidth 64).toNat = a.toNat :=
  BitVec.toNat_setWidth_of_le T.xlen_le

/-- The second half of a doubleword inside the memory. -/
theorem toNat_add_four (h : a.toNat + 8 ≤ Memory.SIZE) :
    ((a + 4).setWidth 64).toNat = a.toNat + 4 := by
  have hx : 2 ^ 32 ≤ 2 ^ T.xlen := Nat.pow_le_pow_right (by decide) T.le_xlen
  have h4 : (4 : BitVec T.xlen).toNat = 4 := by cases T <;> rfl
  unfold Memory.SIZE at h
  rw [toNat_setWidth_64, BitVec.toNat_add, h4, Nat.mod_eq_of_lt (by omega)]

/-- An address that fits a `std::uint32_t`. -/
theorem setWidth_setWidth_of_lt (h : a.toNat < 2 ^ 32) :
    (a.setWidth 32).setWidth 64 = a.setWidth 64 := by
  rw [← BitVec.toNat_inj, BitVec.toNat_setWidth_of_le (by decide), BitVec.toNat_setWidth,
    toNat_setWidth_64, Nat.mod_eq_of_lt h]

end Addresses

/-! ## Running a store -/

/-- The low half of a doubleword, as the stores compute it. -/
theorem setWidth_and_lowMask (x : BitVec 64) :
    (x &&& 0xFFFFFFFF#64).setWidth 32 = x.setWidth 32 := by
  rw [BitVec.setWidth_and, show (0xFFFFFFFF#64).setWidth 32 = BitVec.allOnes 32 from rfl,
    BitVec.and_allOnes]

/-- Two word writes are the write of the doubleword. -/
theorem ofNum_words (a : ℕ) (x : BitVec 64) (mem : Mem) :
    (Write.ofNum (a + 4) 4 ((x >>> 32).setWidth 32)).apply
        ((Write.ofNum a 4 (x.setWidth 32)).apply mem) = (Write.ofNum a 8 x).apply mem := by
  have hlo : (Write.ofNum a 4 (x.setWidth 32)).apply mem = (Write.ofNum a 4 x).apply mem :=
    Write.ofNum_congr fun i hi => byte_setWidth x (by omega)
  rw [hlo, Write.ofNum_add a 4 4]
  exact Write.ofNum_congr fun i hi => byte_setWidth _ (by omega)

section Stores

variable (s) {rs1 rs2 size : ℕ}

theorem BaseIsa.run_execStore {a : BitVec T.xlen}
    (ha : BaseIsa.getImmS w T + s.regs.getValue (ExtensionBase.getRs1 w) = a) (hpos : 0 < size)
    (hsize : size ≤ 4) (h : a.toNat + size ≤ Memory.SIZE) :
    (execStore w size).run s = .ok true (s.setMem ((Write.ofNum a.toNat size
      ((s.regs.getValue (ExtensionBase.getRs2 w)).setWidth 64)).apply s.mem)) := by
  have ha' : (a.setWidth 64).toNat + size ≤ Memory.SIZE := (toNat_setWidth_64 a).symm ▸ h
  rw [execStore, run_bind_ok (run_getValue s _), run_bind_ok (run_getValue s _), ha,
    run_bind_ok (run_writeDataMem hpos hsize ha' _), toNat_setWidth_64]
  refine congrArg (fun mem => EStateM.Result.ok true (s.setMem mem)) (Write.ofNum_congr ?_)
  intro i hi
  rw [byte_setWidth _ (by omega), byte_setWidth _ (by omega)]

theorem CExtension.run_execStoreWord {a : BitVec T.xlen} {imm : BitVec 32}
    (hi : imm.signExtend T.xlen = imm.setWidth T.xlen)
    (ha : imm.setWidth T.xlen + s.regs.getValue rs1 = a) (h : a.toNat + 4 ≤ Memory.SIZE) :
    (execStoreWord rs1 rs2 imm).run s = .ok true (s.setMem ((Write.ofNum a.toNat 4
      ((s.regs.getValue rs2).setWidth 64)).apply s.mem)) := by
  have ha' : (a.setWidth 64).toNat + 4 ≤ Memory.SIZE := (toNat_setWidth_64 a).symm ▸ h
  rw [execStoreWord, run_bind_ok (run_getValue s _), run_bind_ok (run_getValue s _), hi, ha,
    setWidth_setWidth_of_lt a (by
      unfold Memory.SIZE at h
      omega),
    run_bind_ok (run_writeDataMem (by decide) (by decide) ha' _), toNat_setWidth_64]
  refine congrArg (fun mem => EStateM.Result.ok true (s.setMem mem)) (Write.ofNum_congr ?_)
  intro i hi
  rw [byte_setWidth _ (by omega), byte_setWidth _ (by omega)]

/-- The two word accesses of a doubleword store. -/
theorem run_writeDouble {a : BitVec T.xlen} (h : a.toNat + 8 ≤ Memory.SIZE) (x : BitVec 64) :
    (do
      writeDataMem (a.setWidth 64) ((x &&& 0xFFFFFFFF#64).setWidth 32) 4
      writeDataMem ((a + 4).setWidth 64) ((x >>> 32).setWidth 32) 4
      return true : Sim T Bool).run s =
      .ok true (s.setMem ((Write.ofNum a.toNat 8 x).apply s.mem)) := by
  have ha := toNat_setWidth_64 a
  have ha4 := toNat_add_four a h
  rw [run_bind_ok (run_writeDataMem (by decide) (by decide) (by omega) _),
    run_bind_ok (run_writeDataMem (by decide) (by decide) (by omega) _), setWidth_and_lowMask,
    ha, ha4, setMem_setMem, mem_setMem, ofNum_words]
  rfl

theorem BaseIsa.run_execSD {a : BitVec T.xlen}
    (ha : BaseIsa.getImmS w T + s.regs.getValue (ExtensionBase.getRs1 w) = a)
    (h : a.toNat + 8 ≤ Memory.SIZE) :
    (execSD w).run s = .ok true (s.setMem ((Write.ofNum a.toNat 8
      ((s.regs.getValue (ExtensionBase.getRs2 w)).setWidth 64)).apply s.mem)) := by
  rw [execSD, run_bind_ok (run_getValue s _), run_bind_ok (run_getValue s _), ha]
  exact run_writeDouble s h _

theorem CExtension.run_execStoreDouble {a : BitVec T.xlen} {imm : BitVec 32}
    (ha : imm.setWidth T.xlen + s.regs.getValue rs1 = a) (h : a.toNat + 8 ≤ Memory.SIZE) :
    (execStoreDouble rs1 rs2 imm).run s = .ok true (s.setMem ((Write.ofNum a.toNat 8
      ((s.regs.getValue rs2).setWidth 64)).apply s.mem)) := by
  rw [execStoreDouble, run_bind_ok (run_getValue s _), run_bind_ok (run_getValue s _), ha]
  exact run_writeDouble s h _

end Stores

/-- A store inside the memory is its write. -/
theorem StoreOp.run_exec (op : StoreOp) (w : BitVec 32) (s : System T)
    (h : (op.addr w s).toNat + op.width ≤ Memory.SIZE) :
    (op.exec w).run s = .ok true (s.setMem ((op.write w s).apply s.mem)) := by
  cases op with
  | SB => exact BaseIsa.run_execStore s rfl (by decide) (by decide) h
  | SH => exact BaseIsa.run_execStore s rfl (by decide) (by decide) h
  | SW => exact BaseIsa.run_execStore s rfl (by decide) (by decide) h
  | SD => exact BaseIsa.run_execSD s rfl h
  | C_SW => exact CExtension.run_execStoreWord s (CExtension.signExtend_getImmL w _) rfl h
  | C_SWSP => exact CExtension.run_execStoreWord s (CExtension.signExtend_getImmCSS w _) rfl h
  | C_SD => exact CExtension.run_execStoreDouble s rfl h
  | C_SDSP => exact CExtension.run_execStoreDouble s rfl h

/-! ## Running a load -/

section Loads

variable (s) {rd rs1 size n : ℕ}

/-- A word, a halfword or a byte read as a number, before it is extended. -/
theorem setWidth_read (mem : Mem) (a : ℕ) (hn : n = 8 * size) (hs : size ≤ 8) :
    (read 64 mem a size).setWidth n = read n mem a size :=
  setWidth_ofBytes _ hn (by omega) le_rfl

theorem BaseIsa.run_execLoad {a : BitVec T.xlen}
    (ha : BaseIsa.getImmI w T + s.regs.getValue (ExtensionBase.getRs1 w) = a) (hpos : 0 < size)
    (hsize : size ≤ 4) (h : a.toNat + size ≤ Memory.SIZE) {data : BitVec 32 → BitVec T.xlen}
    (hn : n = 8 * size) (ext : BitVec n → BitVec T.xlen)
    (hd : ∀ x : BitVec 32, data x = ext (x.setWidth n)) :
    (execLoad w size data).run s = .ok true
      (s.setReg (ExtensionBase.getRd w) (ext ((read 64 s.mem a.toNat size).setWidth n))) := by
  have ha' : (a.setWidth 64).toNat + size ≤ Memory.SIZE := (toNat_setWidth_64 a).symm ▸ h
  rw [execLoad, run_bind_ok (run_getValue s _), ha,
    run_bind_ok (run_readDataMem hpos hsize ha'), hd, setWidth_copyBytes _ _ _ hn hsize,
    toNat_setWidth_64, setWidth_read _ _ hn (by omega)]
  rfl

theorem setWidth_read_word (mem : Mem) (a : ℕ) :
    (read 64 mem a 4).setWidth 32 = read 32 mem a 4 := setWidth_read mem a rfl (by decide)

/-- A word read from the memory. -/
theorem run_readWord {addr : BitVec 64} (h : addr.toNat + 4 ≤ Memory.SIZE) :
    (readDataMem addr 4).run s = .ok (read 32 s.mem addr.toNat 4) s := by
  rw [run_readDataMem (by decide) (by decide) h, copyBytes_eq_read]

theorem CExtension.run_execLoadWord {a : BitVec T.xlen} {imm : BitVec 32}
    (ha : imm.setWidth T.xlen + s.regs.getValue rs1 = a) (h : a.toNat + 4 ≤ Memory.SIZE) :
    (execLoadWord rd rs1 imm).run s = .ok true
      (s.setReg rd (((read 64 s.mem a.toNat 4).setWidth 32).signExtend T.xlen)) := by
  have ha' : (a.setWidth 64).toNat + 4 ≤ Memory.SIZE := (toNat_setWidth_64 a).symm ▸ h
  rw [execLoadWord, run_bind_ok (run_getValue s _), ha, run_bind_ok (run_readWord s ha'),
    toNat_setWidth_64, setWidth_read_word]
  rfl

/-- `C.LWSP`, whose second register write replaces the first. -/
theorem CExtension.run_execLWSP {a : BitVec T.xlen}
    (ha : (getImmLWSP w).setWidth T.xlen + s.regs.getValue 2 = a)
    (h : a.toNat + 4 ≤ Memory.SIZE) :
    (execLWSP w).run s = .ok true
      (s.setReg (ExtensionBase.getRd w)
        (((read 64 s.mem a.toNat 4).setWidth 32).signExtend T.xlen)) := by
  have ha' : (a.setWidth 64).toNat + 4 ≤ Memory.SIZE := (toNat_setWidth_64 a).symm ▸ h
  rw [execLWSP, run_bind_ok (run_getValue s _), ha, run_bind_ok (run_readWord s ha'),
    run_bind_ok (run_setValue s _ _), run_bind_ok (run_setValue _ _ _), toNat_setWidth_64,
    setWidth_read_word]
  exact congrArg (fun regs => EStateM.Result.ok true { s with regs := regs })
    (Registers.setValue_setValue _ _ _ _)

/-- The two word accesses of a doubleword load, and its register write. -/
theorem run_readDouble {a : BitVec T.xlen} (h : a.toNat + 8 ≤ Memory.SIZE) :
    (do
      let data := (← readDataMem (a.setWidth 64) 4).setWidth 64
      let aux := (← readDataMem ((a + 4).setWidth 64) 4).setWidth 64
      let data := data ||| aux <<< 32
      setValue rd (data.setWidth T.xlen)
      return true : Sim T Bool).run s = .ok true
      (s.setReg rd ((read 64 s.mem a.toNat 8).setWidth T.xlen)) := by
  have ha := toNat_setWidth_64 a
  have ha4 := toNat_add_four a h
  have hw (b : ℕ) : (read 32 s.mem b 4).setWidth 64 = read 64 s.mem b 4 :=
    setWidth_ofBytes_of_le _ (by decide)
  rw [run_bind_ok (run_readWord s (by omega)), run_bind_ok (run_readWord s (by omega)), ha, ha4,
    hw, hw, read_add s.mem a.toNat 4 4]
  rfl

theorem BaseIsa.run_execLD {a : BitVec T.xlen}
    (ha : BaseIsa.getImmI w T + s.regs.getValue (ExtensionBase.getRs1 w) = a)
    (h : a.toNat + 8 ≤ Memory.SIZE) :
    (execLD w).run s = .ok true
      (s.setReg (ExtensionBase.getRd w) ((read 64 s.mem a.toNat 8).setWidth T.xlen)) := by
  rw [execLD, run_bind_ok (run_getValue s _), ha]
  exact run_readDouble s h

theorem CExtension.run_execLoadDouble {a : BitVec T.xlen} {imm : BitVec 32}
    (ha : imm.setWidth T.xlen + s.regs.getValue rs1 = a) (h : a.toNat + 8 ≤ Memory.SIZE) :
    (execLoadDouble rd rs1 imm).run s = .ok true
      (s.setReg rd ((read 64 s.mem a.toNat 8).setWidth T.xlen)) := by
  rw [execLoadDouble, run_bind_ok (run_getValue s _), ha]
  exact run_readDouble s h

end Loads

/-- A load inside the memory puts the bytes it finds into its register. -/
theorem LoadOp.run_exec (op : LoadOp) (w : BitVec 32) (s : System T)
    (h : (op.addr w s).toNat + op.width ≤ Memory.SIZE) :
    (op.exec w).run s = .ok true (s.setReg (op.rd w) (op.extend (op.found w s))) := by
  cases op with
  | LB =>
    exact BaseIsa.run_execLoad s rfl (by decide) (by decide) h rfl (fun x => x.signExtend T.xlen)
      fun _ => rfl
  | LH =>
    exact BaseIsa.run_execLoad s rfl (by decide) (by decide) h rfl (fun x => x.signExtend T.xlen)
      fun _ => rfl
  | LW =>
    exact BaseIsa.run_execLoad s rfl (by decide) (by decide) h rfl (fun x => x.signExtend T.xlen)
      fun x => congrArg (BitVec.signExtend T.xlen) (BitVec.setWidth_eq x).symm
  | LBU =>
    exact BaseIsa.run_execLoad s rfl (by decide) (by decide) h rfl (fun x => x.setWidth T.xlen)
      fun _ => rfl
  | LHU =>
    exact BaseIsa.run_execLoad s rfl (by decide) (by decide) h rfl (fun x => x.setWidth T.xlen)
      fun _ => rfl
  | LWU =>
    exact BaseIsa.run_execLoad s rfl (by decide) (by decide) h rfl (fun x => x.setWidth T.xlen)
      fun x => congrArg (BitVec.setWidth T.xlen) (BitVec.setWidth_eq x).symm
  | LD => exact BaseIsa.run_execLD s rfl h
  | C_LW => exact CExtension.run_execLoadWord s rfl h
  | C_LWSP => exact CExtension.run_execLWSP s rfl h
  | C_LD => exact CExtension.run_execLoadDouble s rfl h
  | C_LDSP => exact CExtension.run_execLoadDouble s rfl h

end RiscvTlm
