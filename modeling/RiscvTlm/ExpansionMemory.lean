import RiscvTlm.BusErrors
import RiscvTlm.Expansion

/-!
# Compressed loads and stores, and the whole extension

The loads and the doubleword stores are the programs of their expansions. A word store keeps its
address in a `std::uint32_t`, so it agrees with its expansion where the address fits or where both
run past the last target. `FitsWord` collects what RV64 needs of all instructions; RV32 has it
always.
-/

namespace RiscvTlm

open Isa BitField Prog

variable {T : CpuType} {s s₁ t : System T} {w : BitVec 32} {c : CInstr}

/-! ## Loads and stores -/

section Memory

variable {rd rs1 rs2 : RegC} {r r2 : Reg} {uimm : BitVec 5} {usp : BitVec 6}

/-- Both switches call programs that run alike and leave the PC to the CPU. -/
theorem expandsTo_of_same {x y : Sim T Bool} {code : OpCodes} (hd : c.Defined T.xlen)
    (hw : w.setWidth 16 = c.encode) (hl : linkReg c = none)
    (hf : fallsThrough (archState s) c = true)
    (hx : CExtension.execInstruction w (compressedCode c) = pcNext x)
    (hcode : instrCode c.expand = .base code)
    (hy : BaseIsa.execInstruction (encode c.expand) code = pcNext y) (hxy : x.run s = y.run s)
    (hk : Keeps (fun s : System T => s.regs.registerPC) y) : ExpandsTo w c s := by
  have hks := hk s
  rw [ExpandsTo, runExpansion, decodeCascade_compressed hd hw, decodeCascade_encode, hcode]
  cases hr : y.run s with
  | ok b t =>
    rw [hr] at hks
    rw [run_next_c hx (hxy.trans hr), run_next hy hr]
    have hshort : Shortens c (archState s) (archState { t with regs := t.regs.incPCby2 })
        (archState { t with regs := t.regs.incPC }) := {
      x := fun _ _ => rfl
      link := fun r hr => by
        rw [hl] at hr
        cases hr
      next := fun _ => ⟨congrArg (· + 2) hks, congrArg (· + 4) hks⟩
      target := fun h => absurd (hf.symm.trans h) (by decide)
      mem := rfl }
    exact And.intro hshort rfl
  | error e t =>
    rw [run_next_c_error hx (hxy.trans hr), run_next_error hy hr]
    exact ⟨rfl, rfl, rfl⟩

/-! ### The PC during an access -/

theorem keeps_readDataMem_pc (addr : BitVec 64) (size : ℕ) :
    Keeps (fun s : System T => s.regs.registerPC) (readDataMem addr size) :=
  keeps_readDataMem_of_bus (fun _ _ _ => rfl) addr size

theorem keeps_writeDataMem_pc (addr : BitVec 64) (data : BitVec 32) (size : ℕ) :
    Keeps (fun s : System T => s.regs.registerPC) (writeDataMem addr data size) :=
  keeps_writeDataMem (fun _ _ => rfl) addr data size

theorem keeps_setValue_pc (n : ℕ) (v : BitVec T.xlen) :
    Keeps (fun s : System T => s.regs.registerPC) (setValue n v) :=
  keeps_setValue (fun _ _ => Registers.setValue_registerPC _ _ _) v

theorem keeps_execLW_pc : Keeps (fun s : System T => s.regs.registerPC) (BaseIsa.execLW w) :=
  .bind (keeps_getValue _) fun _ => .bind (keeps_readDataMem_pc _ _) fun _ =>
    .bind (keeps_setValue_pc _ _) fun _ => .pure _

theorem keeps_execLD_pc : Keeps (fun s : System T => s.regs.registerPC) (BaseIsa.execLD w) :=
  .bind (keeps_getValue _) fun _ => .bind (keeps_readDataMem_pc _ _) fun _ =>
    .bind (keeps_readDataMem_pc _ _) fun _ => .bind (keeps_setValue_pc _ _) fun _ => .pure _

theorem keeps_execSW_pc : Keeps (fun s : System T => s.regs.registerPC) (BaseIsa.execSW w) :=
  .bind (keeps_getValue _) fun _ => .bind (keeps_getValue _) fun _ =>
    .bind (keeps_writeDataMem_pc _ _ _) fun _ => .pure _

theorem keeps_execSD_pc : Keeps (fun s : System T => s.regs.registerPC) (BaseIsa.execSD w) :=
  .bind (keeps_getValue _) fun _ => .bind (keeps_getValue _) fun _ =>
    .bind (keeps_writeDataMem_pc _ _ _) fun _ => .bind (keeps_writeDataMem_pc _ _ _) fun _ =>
      .pure _

/-! ### The functions on an expansion -/

section Displacement

variable {k p : ℕ} (u : BitVec k) (h : p + k < 12)

include h

theorem execLW_displacement {rd rs1 : Reg} :
    (BaseIsa.execLW (encode (.load .lw rd rs1 (place 12 p u))) : Sim T Bool) =
      CExtension.execLoadWord rd.toNat rs1.toNat (place 32 p u) := by
  have ho : Operands T _ (.load .lw rd rs1 (place 12 p u)) := operands_encode trivial
  rw [BaseIsa.execLW, BaseIsa.execLoad, ho.1, ho.2.1, ho.2.2, signExtend_displacement u _ h]
  rfl

theorem execLD_displacement {rd rs1 : Reg} (hT : T.xlen = 64) :
    (BaseIsa.execLD (encode (.load .ld rd rs1 (place 12 p u))) : Sim T Bool) =
      CExtension.execLoadDouble rd.toNat rs1.toNat (place 32 p u) := by
  have ho : Operands T _ (.load .ld rd rs1 (place 12 p u)) := operands_encode hT
  rw [BaseIsa.execLD, ho.1, ho.2.1, ho.2.2, signExtend_displacement u _ h]
  rfl

theorem execSD_displacement {rs1 rs2 : Reg} (hT : T.xlen = 64) :
    (BaseIsa.execSD (encode (.store .sd rs1 rs2 (place 12 p u))) : Sim T Bool) =
      CExtension.execStoreDouble rs1.toNat rs2.toNat (place 32 p u) := by
  have ho : Operands T _ (.store .sd rs1 rs2 (place 12 p u)) := operands_encode hT
  rw [BaseIsa.execSD, ho.1, ho.2.1, ho.2.2, signExtend_displacement u _ h]
  rfl

end Displacement

/-! ### Loads -/

theorem expandsTo_lw (hd : (CInstr.lw rd rs1 uimm).Defined T.xlen)
    (hw : w.setWidth 16 = (CInstr.lw rd rs1 uimm).encode) : ExpandsTo w (.lw rd rs1 uimm) s := by
  have ho := coperands_encode hd hw
  have he : (CExtension.execLW w : Sim T Bool) =
      BaseIsa.execLW (encode (.load .lw rd.reg rs1.reg (place 12 2 uimm))) := by
    rw [execLW_displacement uimm (by decide), CExtension.execLW, ho.1, ho.2.1, ho.2.2]
  exact expandsTo_of_same hd hw rfl rfl rfl rfl rfl (congrArg (EStateM.run · s) he) keeps_execLW_pc

/-- `C.LWSP` writes its register twice with the same value. -/
theorem expandsTo_lwsp (hd : (CInstr.lwsp r usp).Defined T.xlen)
    (hw : w.setWidth 16 = (CInstr.lwsp r usp).encode) : ExpandsTo w (.lwsp r usp) s := by
  have ho := coperands_encode hd hw
  have he : (CExtension.execLWSP w : Sim T Bool) =
      BaseIsa.execLW (encode (.load .lw r 2 (place 12 2 usp))) := by
    have htwice (v : BitVec T.xlen) : (do
        setValue r.toNat v
        setValue r.toNat v
        return true : Sim T Bool) = (do
          setValue r.toNat v
          return true) := by
      funext t
      exact congrArg (fun regs => EStateM.Result.ok true { t with regs := regs })
        (Registers.setValue_setValue _ _ _ _)
    have hword (x : BitVec 32) :
        ((x.signExtend T.xlen).setWidth 32).signExtend T.xlen = x.signExtend T.xlen := by
      rw [CpuType.setWidth_signExtend]
    rw [execLW_displacement usp (by decide), CExtension.execLWSP, ho.1, ho.2]
    simp only [hword, htwice]
    rfl
  exact expandsTo_of_same hd hw rfl rfl rfl rfl rfl (congrArg (EStateM.run · s) he) keeps_execLW_pc

theorem expandsTo_ld (hd : (CInstr.ld rd rs1 uimm).Defined T.xlen)
    (hw : w.setWidth 16 = (CInstr.ld rd rs1 uimm).encode) : ExpandsTo w (.ld rd rs1 uimm) s := by
  have ho := coperands_encode hd hw
  have he : (CExtension.execLD w : Sim T Bool) =
      BaseIsa.execLD (encode (.load .ld rd.reg rs1.reg (place 12 3 uimm))) := by
    rw [execLD_displacement uimm (by decide) hd, CExtension.execLD, ho.1, ho.2.1, ho.2.2]
  exact expandsTo_of_same hd hw rfl rfl rfl rfl rfl (congrArg (EStateM.run · s) he) keeps_execLD_pc

theorem expandsTo_ldsp (hd : (CInstr.ldsp r usp).Defined T.xlen)
    (hw : w.setWidth 16 = (CInstr.ldsp r usp).encode) : ExpandsTo w (.ldsp r usp) s := by
  have ho := coperands_encode hd hw
  have he : (CExtension.execLDSP w : Sim T Bool) =
      BaseIsa.execLD (encode (.load .ld r 2 (place 12 3 usp))) := by
    rw [execLD_displacement usp (by decide) hd.1, CExtension.execLDSP, ho.1, ho.2]
    rfl
  exact expandsTo_of_same hd hw rfl rfl rfl rfl rfl (congrArg (EStateM.run · s) he) keeps_execLD_pc

/-! ### Stores -/

theorem expandsTo_sd (hd : (CInstr.sd rs1 rs2 uimm).Defined T.xlen)
    (hw : w.setWidth 16 = (CInstr.sd rs1 rs2 uimm).encode) : ExpandsTo w (.sd rs1 rs2 uimm) s := by
  have ho := coperands_encode hd hw
  have he : (CExtension.execSD w : Sim T Bool) =
      BaseIsa.execSD (encode (.store .sd rs1.reg rs2.reg (place 12 3 uimm))) := by
    rw [execSD_displacement uimm (by decide) hd, CExtension.execSD, ho.1, ho.2.1, ho.2.2]
  exact expandsTo_of_same hd hw rfl rfl rfl rfl rfl (congrArg (EStateM.run · s) he) keeps_execSD_pc

theorem expandsTo_sdsp (hd : (CInstr.sdsp r usp).Defined T.xlen)
    (hw : w.setWidth 16 = (CInstr.sdsp r usp).encode) : ExpandsTo w (.sdsp r usp) s := by
  have ho := coperands_encode hd hw
  have he : (CExtension.execSDSP w : Sim T Bool) =
      BaseIsa.execSD (encode (.store .sd 2 r (place 12 3 usp))) := by
    rw [execSD_displacement usp (by decide) hd, CExtension.execSDSP, ho.1, ho.2]
    rfl
  exact expandsTo_of_same hd hw rfl rfl rfl rfl rfl (congrArg (EStateM.run · s) he) keeps_execSD_pc

end Memory

/-! ## Word stores, whose address is cut to a word -/

section StoreWord

variable {addr : BitVec 64} {data : BitVec 32} {size : ℕ} {rs1 rs2 : RegC} {r : Reg}
  {uimm : BitVec 5} {usp : BitVec 6}

/-- A write past the last target is reported as an error. -/
theorem run_writeDataMem_toHost (s : System T) (data : BitVec 32) (size : ℕ)
    (h : TO_HOST_ADDRESS ≤ addr.toNat) :
    ∃ e : Fault, e.isReport = true ∧ (writeDataMem addr data size).run s =
      .error e { s with bus := { s.bus with stopped := true } } := by
  have hb : BusCtrl.bTransport s.bus s.host (MemoryInterface.trans .write addr data size) =
      .ok ({ s.bus with stopped := true }, MemoryInterface.trans .write addr data size) :=
    if_pos (Nat.div_le_div_right h)
  refine ⟨.scReportError "Memory" ("Write memory: 0x" ++ hex addr), rfl, ?_⟩
  rw [writeDataMem, run_bind_ok (run_bTransport hb)]
  rfl

/-- Before it no error is reported. -/
theorem isReport_writeDataMem {e : Fault} (hlt : addr.toNat < TO_HOST_ADDRESS)
    (h : (writeDataMem addr data size).run s = .error e t) : e.isReport = false := by
  cases hb : BusCtrl.bTransport s.bus s.host (MemoryInterface.trans .write addr data size) with
  | ok r =>
    rw [writeDataMem, run_bind_ok (run_bTransport hb), BusCtrl.bTransport_ok hlt hb] at h
    cases h
  | error f =>
    have hf : (bTransport (MemoryInterface.trans .write addr data size)).run s = .error f s := by
      rw [bTransport, run_get_bind, hb]
      rfl
    rw [writeDataMem, run_bind_error hf] at h
    cases h
    rw [BusCtrl.bTransport_error hlt hb]
    rfl

/-- The write of a word store. -/
def storeWordAt (addr : BitVec 64) (data : BitVec 32) : Sim T Bool := do
  writeDataMem addr data 4
  return true

/-- The compressed store writes at the low word of the address its expansion writes at. -/
theorem expandsTo_storeWord_iff {x : Sim T Bool} {a : BitVec T.xlen}
    (hd : c.Defined T.xlen) (hw : w.setWidth 16 = c.encode) (hl : linkReg c = none)
    (hf : fallsThrough (archState s) c = true)
    (hx : CExtension.execInstruction w (compressedCode c) = pcNext x)
    (hcode : instrCode c.expand = .base .OP_SW)
    (hrx : x.run s = (storeWordAt ((a.setWidth 32).setWidth 64) data).run s)
    (hry : (BaseIsa.execSW (encode c.expand)).run s = (storeWordAt (a.setWidth 64) data).run s) :
    ExpandsTo w c s ↔ a.toNat < 2 ^ 32 ∨ TO_HOST_ADDRESS ≤ (a.setWidth 32).toNat := by
  by_cases ha : a.toNat < 2 ^ 32
  · refine iff_of_true (expandsTo_of_same hd hw hl hf hx hcode rfl ?_ keeps_execSW_pc) (.inl ha)
    rw [hrx, hry, setWidth_setWidth_of_lt a ha]
  -- the expansion writes past the last target
  have hpast : TO_HOST_ADDRESS ≤ (a.setWidth 64).toNat := by
    rw [toNat_setWidth_64]
    unfold TO_HOST_ADDRESS
    omega
  obtain ⟨e, he, hey⟩ := run_writeDataMem_toHost s data 4 hpast
  have hbase : (execDecoded (encode c.expand) (.base .OP_SW)).run s =
      .error e { s with bus := { s.bus with stopped := true } } :=
    run_next_error rfl (hry.trans (run_bind_error hey))
  have hnarrow : ((a.setWidth 32).setWidth 64).toNat = (a.setWidth 32).toNat :=
    BitVec.toNat_setWidth_of_le (by decide)
  rw [ExpandsTo, runExpansion, decodeCascade_compressed hd hw, decodeCascade_encode, hcode, hbase]
  by_cases hb : TO_HOST_ADDRESS ≤ (a.setWidth 32).toNat
  · obtain ⟨f, hf, hfx⟩ := run_writeDataMem_toHost s data 4 (hnarrow.symm ▸ hb)
    rw [run_next_c_error hx (hrx.trans (run_bind_error hfx))]
    exact iff_of_true ⟨hf.trans he.symm, rfl, rfl⟩ (.inr hb)
  · refine iff_of_false ?_ (not_or.mpr ⟨ha, hb⟩)
    cases hr : (writeDataMem ((a.setWidth 32).setWidth 64) data 4).run s with
    | ok u t =>
      have hcomp : x.run s = .ok true t := hrx.trans (run_bind_ok hr)
      rw [run_next_c hx hcomp]
      exact id
    | error f t =>
      rw [run_next_c_error hx (hrx.trans (run_bind_error hr))]
      rintro ⟨hfe, -⟩
      rw [isReport_writeDataMem (by omega) hr, he] at hfe
      cases hfe

/-- A word store reaches the address its expansion reaches, or both stop past the last target. -/
def StoreReaches {n : ℕ} (a : BitVec n) : Prop :=
  a.toNat < 2 ^ 32 ∨ TO_HOST_ADDRESS ≤ (a.setWidth 32).toNat

theorem run_execSW_displacement {k p : ℕ} {u : BitVec k} {rs1 rs2 : Reg} :
    (BaseIsa.execSW (encode (.store .sw rs1 rs2 (place 12 p u)))).run s =
      (storeWordAt ((registers s rs1 + (place 12 p u).signExtend T.xlen).setWidth 64)
        ((registers s rs2).setWidth 32)).run s := by
  have ho : Operands T _ (.store .sw rs1 rs2 (place 12 p u)) := operands_encode trivial
  rw [BaseIsa.execSW, BaseIsa.execStore, run_bind_ok (run_getValue s _),
    run_bind_ok (run_getValue s _), ho.1, ho.2.1, ho.2.2, BitVec.add_comm]
  rfl

theorem run_execStoreWord_displacement {k p : ℕ} {u : BitVec k} (h : p + k < 12) (rs1 rs2 : Reg) :
    (CExtension.execStoreWord rs1.toNat rs2.toNat (place 32 p u)).run s =
      (storeWordAt (((registers s rs1 + (place 12 p u).signExtend T.xlen).setWidth 32).setWidth 64)
        ((registers s rs2).setWidth 32)).run s := by
  have hi : (place 32 p u).signExtend T.xlen = (place 12 p u).signExtend T.xlen := by
    rw [signExtend_place_of_lt u (by omega), signExtend_place_of_lt u h]
  rw [CExtension.execStoreWord, run_bind_ok (run_getValue s _), run_bind_ok (run_getValue s _), hi,
    BitVec.add_comm]
  rfl

theorem expandsTo_sw_iff (hd : (CInstr.sw rs1 rs2 uimm).Defined T.xlen)
    (hw : w.setWidth 16 = (CInstr.sw rs1 rs2 uimm).encode) :
    ExpandsTo w (.sw rs1 rs2 uimm) s ↔
      StoreReaches (registers s rs1.reg + (place 12 2 uimm).signExtend T.xlen) := by
  have ho := coperands_encode hd hw
  refine expandsTo_storeWord_iff hd hw rfl rfl rfl rfl ?_ run_execSW_displacement
  rw [CExtension.execSW, ho.1, ho.2.1, ho.2.2]
  exact run_execStoreWord_displacement (by decide) rs1.reg rs2.reg

theorem expandsTo_swsp_iff (hd : (CInstr.swsp r usp).Defined T.xlen)
    (hw : w.setWidth 16 = (CInstr.swsp r usp).encode) :
    ExpandsTo w (.swsp r usp) s ↔
      StoreReaches (registers s 2 + (place 12 2 usp).signExtend T.xlen) := by
  have ho := coperands_encode hd hw
  refine expandsTo_storeWord_iff hd hw rfl rfl rfl rfl ?_ run_execSW_displacement
  rw [CExtension.execSWSP, ho.1, ho.2]
  exact run_execStoreWord_displacement (by decide) 2 r

end StoreWord

/-! ## The whole extension -/

/-- What the 32-bit variables and the sign-extended amounts of the code lose does not matter:
targets, links and addresses fit a word, and amounts are below 32. -/
def FitsWord {n : ℕ} (a : Isa.State n) : CInstr → Prop
  | .j offset => (a.pc + jumpOffset n (offset.signExtend 20)).toNat < 2 ^ 32
  | .jal offset =>
    (a.pc + jumpOffset n (offset.signExtend 20)).toNat < 2 ^ 32 ∧ (a.pc + 2).toNat < 2 ^ 32
  | .jr rs1 => (a.x rs1).toNat < 2 ^ 32
  | .jalr rs1 => (a.x rs1).toNat < 2 ^ 32 ∧ (a.pc + 2).toNat < 2 ^ 32
  | .sw rs1 _ uimm => StoreReaches (a.x rs1.reg + (place 12 2 uimm).signExtend n)
  | .swsp _ uimm => StoreReaches (a.x 2 + (place 12 2 uimm).signExtend n)
  | .srli _ shamt | .srai _ shamt | .slli _ shamt => shamt.toNat < 32
  | _ => True

theorem expandsTo_iff (hd : c.Defined T.xlen) (hw : w.setWidth 16 = c.encode) :
    ExpandsTo w c s ↔ FitsWord (archState s) c := by
  cases c with
  | addi4spn rd uimm => exact iff_of_true (expandsTo_addi4spn hd hw) trivial
  | lw rd rs1 uimm => exact iff_of_true (expandsTo_lw hd hw) trivial
  | ld rd rs1 uimm => exact iff_of_true (expandsTo_ld hd hw) trivial
  | sw rs1 rs2 uimm => exact expandsTo_sw_iff hd hw
  | sd rs1 rs2 uimm => exact iff_of_true (expandsTo_sd hd hw) trivial
  | addi rd imm => exact iff_of_true (expandsTo_addi hd hw) trivial
  | jal offset => exact expandsTo_jal_iff hd hw
  | addiw rd imm => exact iff_of_true (expandsTo_addiw hd hw) trivial
  | li rd imm => exact iff_of_true (expandsTo_li hd hw) trivial
  | addi16sp imm => exact iff_of_true (expandsTo_addi16sp hd hw) trivial
  | lui rd imm => exact iff_of_true (expandsTo_lui hd hw) trivial
  | srli rd shamt => exact expandsTo_srli_iff hd hw
  | srai rd shamt => exact expandsTo_srai_iff hd hw
  | andi rd imm => exact iff_of_true (expandsTo_andi hd hw) trivial
  | sub rd rs2 => exact iff_of_true (expandsTo_sub hd hw) trivial
  | xor rd rs2 => exact iff_of_true (expandsTo_xor hd hw) trivial
  | or rd rs2 => exact iff_of_true (expandsTo_or hd hw) trivial
  | and rd rs2 => exact iff_of_true (expandsTo_and hd hw) trivial
  | subw rd rs2 => exact iff_of_true (expandsTo_subw hd hw) trivial
  | addw rd rs2 => exact iff_of_true (expandsTo_addw hd hw) trivial
  | j offset => exact expandsTo_j_iff hd hw
  | beqz rs1 offset => exact iff_of_true (expandsTo_beqz hd hw) trivial
  | bnez rs1 offset => exact iff_of_true (expandsTo_bnez hd hw) trivial
  | slli rd shamt => exact expandsTo_slli_iff hd hw
  | lwsp rd uimm => exact iff_of_true (expandsTo_lwsp hd hw) trivial
  | ldsp rd uimm => exact iff_of_true (expandsTo_ldsp hd hw) trivial
  | jr rs1 => exact expandsTo_jr_iff hd hw
  | mv rd rs2 => exact iff_of_true (expandsTo_mv hd hw) trivial
  | ebreak => exact iff_of_true (expandsTo_ebreak hd hw) trivial
  | jalr rs1 => exact expandsTo_jalr_iff hd hw
  | add rd rs2 => exact iff_of_true (expandsTo_add hd hw) trivial
  | swsp rs2 uimm => exact expandsTo_swsp_iff hd hw
  | sdsp rs2 uimm => exact iff_of_true (expandsTo_sdsp hd hw) trivial

/-- A step on a compressed instruction. -/
theorem agree_cpuStep_iff (hf : fetch.run s = .ok w s₁) (hd : c.Defined T.xlen)
    (hw : w.setWidth 16 = c.encode) :
    Agree c (archState s) (cpuStep.run s) (runExpansion c s₁) ↔ FitsWord (archState s) c := by
  rw [run_cpuStep hf, ← archState_fetch hf]
  exact expandsTo_iff hd hw

/-- Where registers have 32 bits everything fits. -/
theorem fitsWord_of_xlen {n : ℕ} (hn : n = 32) (a : Isa.State n) (hd : c.Defined n) :
    FitsWord a c := by
  subst hn
  cases c with
  | j offset => exact BitVec.isLt _
  | jal offset => exact ⟨BitVec.isLt _, BitVec.isLt _⟩
  | jr rs1 => exact BitVec.isLt _
  | jalr rs1 => exact ⟨BitVec.isLt _, BitVec.isLt _⟩
  | sw rs1 rs2 uimm => exact .inl (BitVec.isLt _)
  | swsp rs2 uimm => exact .inl (BitVec.isLt _)
  | srli rd shamt | srai rd shamt | slli rd shamt =>
    exact (shamt_lt_iff shamt).mpr (hd.resolve_left (by decide))
  | _ => exact trivial

/-- RV64C: a compressed instruction does what its expansion does exactly where the words of the code
suffice. -/
theorem expansion_rv64_iff {s s₁ : System .RV64} (hf : fetch.run s = .ok w s₁)
    (hd : c.Defined 64) (hw : w.setWidth 16 = c.encode) :
    Agree c (archState s) (cpuStep.run s) (runExpansion c s₁) ↔ FitsWord (archState s) c :=
  agree_cpuStep_iff hf hd hw

/-- `c.j 8`. -/
theorem expansion_rv64_j :
    Agree (.j 4) (archState (start .RV64 [0xA021])) (cpuStep.run (start .RV64 [0xA021]))
      (runExpansion (.j 4) (endState (fetch.run (start .RV64 [0xA021])))) := by
  refine (expansion_rv64_iff rfl (by decide) (by decide)).mpr ?_
  rw [FitsWord]
  decide

/-- `c.li x1, -1; c.jr x1` after the first step. -/
def atReturn : System .RV64 := endState (cpuStep.run (start .RV64 [0x808250FD]))

/-- The jump loses the upper half of its target. -/
theorem not_expansion_rv64_jr :
    fetch.run atReturn = .ok 0x8082 (endState (fetch.run atReturn)) ∧
      (CInstr.jr 1).Defined 64 ∧ (0x8082#32).setWidth 16 = (CInstr.jr 1).encode ∧
      ¬Agree (.jr 1) (archState atReturn) (cpuStep.run atReturn)
        (runExpansion (.jr 1) (endState (fetch.run atReturn))) := by
  refine ⟨rfl, by decide, by decide, fun h => ?_⟩
  have hpc := h.1.target rfl
  exact absurd hpc (by decide)

/-- RV32C: every compressed instruction does what its expansion does. -/
theorem expansion_rv32 {s s₁ : System .RV32} (hf : fetch.run s = .ok w s₁)
    (hd : c.Defined 32) (hw : w.setWidth 16 = c.encode) :
    Agree c (archState s) (cpuStep.run s) (runExpansion c s₁) :=
  (agree_cpuStep_iff hf hd hw).mpr (fitsWord_of_xlen rfl _ hd)

/-- `c.jal 8`. -/
theorem expansion_rv32_jal :
    Agree (.jal 4) (archState (start .RV32 [0x2021])) (cpuStep.run (start .RV32 [0x2021]))
      (runExpansion (.jal 4) (endState (fetch.run (start .RV32 [0x2021])))) :=
  expansion_rv32 rfl (by decide) (by decide)

end RiscvTlm
