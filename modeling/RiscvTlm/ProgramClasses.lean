import RiscvTlm.Lib.Prog
import RiscvTlm.Footprints

/-!
# Classes of programs

A `ProgramClass` is closed under sequencing and contains whatever reads the state, and those of the
changes that it admits. `ProgramClass.execDecoded` says once, by cases of the switch, that a decoded
word falls into every class that admits what the word may do: frame conditions, relations and
histories of the instructions are such classes.
-/

namespace RiscvTlm

open ExtensionBase

variable {T : CpuType}

/-! ## Classes -/

/-- A class of programs: closed under sequencing, with every read of the state and with the changes
that it admits. The PCs read are allowed ones, and so must be those written. -/
structure ProgramClass (T : CpuType) where
  holds {α : Type} : Sim T α → Prop
  anyPC : Prop
  value : ℕ → Prop
  csr : ℕ → Prop
  write : Prop
  tlb : Prop
  stop : Prop
  value_zero : value 0
  pure {α : Type} (a : α) : holds (pure a)
  throw {α : Type} (e : Fault) : holds (throw e : Sim T α)
  bind {α β : Type} {x : Sim T α} {k : α → Sim T β} :
    holds x → (∀ a, holds (k a)) → holds (x >>= k)
  getValue (n : ℕ) : holds (getValue n)
  getCSR (c : ℕ) : holds (getCSR c)
  getPC_bind {α : Type} {k : BitVec T.xlen → Sim T α} :
    (∀ pc, Allowed anyPC pc → holds (k pc)) → holds (getPC >>= k)
  setValue {n : ℕ} (v : BitVec T.xlen) : value n → holds (setValue n v)
  setCSR {c : ℕ} (v : BitVec T.xlen) : csr c → holds (setCSR c v)
  setPC {pc : BitVec T.xlen} : Allowed anyPC pc → holds (setPC pc)
  readDataMem (addr : BitVec 64) (size : ℕ) : holds (readDataMem addr size)
  writeDataMem (addr : BitVec 64) (data : BitVec 32) (size : ℕ) :
    write → holds (writeDataMem addr data size)
  tlbReserve (a : BitVec 32) : tlb → holds (AExtension.tlbReserve a)
  tlbReserved (a : BitVec 32) : tlb → holds (AExtension.tlbReserved a)
  scStop : stop → holds scStop

namespace ProgramClass

/-- The class admits all that a decoded word may do. `FENCE` is the only word that depends on the
memory for whether it calls `sc_stop`. -/
structure Admits (C : ProgramClass T) (w : BitVec 32) (d : Decoded) : Prop where
  value : ∀ n ∈ written w d, C.value n
  csr : ∀ c, csrAddressed w d = some c → C.csr c
  write : storing d = true → C.write
  tlb : reserving d = true → C.tlb
  stop : stopping T w d = true ∨ d = .base .OP_FENCE → C.stop
  raise : ∀ cause, raiseOf T w d = some cause → C.holds (raiseException cause w)
  pc : C.anyPC ∨ d ≠ .base .OP_MRET ∧ d ≠ .base .OP_SRET

end ProgramClass

variable (C : ProgramClass T) (m : BitVec 32) {α : Type}

/-! ## The building blocks -/

theorem holds_ite {c : Prop} [Decidable c] {x y : Sim T α} (hx : C.holds x) (hy : C.holds y) :
    C.holds (if c then x else y) := by
  split
  · exact hx
  · exact hy

theorem holds_incPC : C.holds incPC :=
  C.getPC_bind (k := fun pc => setPC (pc + 4)) fun _ h => C.setPC h.next

theorem holds_incPCby2 : C.holds incPCby2 :=
  C.getPC_bind (k := fun pc => setPC (pc + 2)) fun _ h => C.setPC h.next2

theorem holds_NOP (h : C.stop) : C.holds NOP := C.bind (C.scStop h) fun _ => C.pure _

theorem holds_shl {w : ℕ} (x : BitVec w) (n : ℕ) : C.holds (shl x n) :=
  holds_ite C (C.pure _) (C.throw _)

theorem holds_ushr {w : ℕ} (x : BitVec w) (n : ℕ) : C.holds (ushr x n) :=
  holds_ite C (C.pure _) (C.throw _)

theorem holds_sshr {w : ℕ} (x : BitVec w) (n : ℕ) : C.holds (sshr x n) :=
  holds_ite C (C.pure _) (C.throw _)

theorem holds_pcNext {x : Sim T Bool} (h : C.holds x) : C.holds (pcNext x) :=
  C.bind h fun _ => C.pure _

theorem holds_pcSet {x : Sim T Bool} (h : C.holds x) : C.holds (pcSet x) :=
  C.bind h fun _ => C.pure _

theorem holds_pcForward {x : Sim T Bool} (h : C.holds x) : C.holds (pcForward x) :=
  C.bind h fun _ => C.pure _

/-- Of the exceptions only the breakpoint calls `sc_stop`. -/
theorem holds_raiseException {cause : ExceptionCause} (hpc : C.anyPC) (hcsr : ∀ c, C.csr c)
    (hstop : cause = .BREAK → C.stop)
    (hlog : C.holds (modify fun s => { s with
      exceptionLog := cause :: s.exceptionLog } : Sim T Unit)) :
    C.holds (raiseException cause m) := by
  have hset (c : ℕ) (v : BitVec T.xlen) : C.holds (setCSR c v) := C.setCSR v (hcsr c)
  have htail (v v' v'' : BitVec T.xlen) : C.holds (do
      setCSR Csr.MCAUSE v
      setCSR Csr.MSTATUS v'
      setPC v''
      modify fun s => { s with exceptionLog := cause :: s.exceptionLog } : Sim T Unit) :=
    C.bind (hset _ v) fun _ => C.bind (hset _ v') fun _ =>
      C.bind (C.setPC (.inl hpc)) fun _ => hlog
  unfold raiseException
  refine C.getPC_bind fun _ _ => C.bind (C.getCSR _) fun _ => C.bind (C.getCSR _) fun _ =>
    C.bind (hset _ _) fun _ => ?_
  cases cause with
  | BREAK => exact C.bind (C.scStop (hstop rfl)) fun _ => htail _ _ _
  | _ => exact C.bind (hset _ _) fun _ => htail _ _ _

attribute [local grind ←] ProgramClass.pure ProgramClass.throw ProgramClass.bind
  ProgramClass.getValue ProgramClass.getCSR ProgramClass.getPC_bind ProgramClass.setValue
  ProgramClass.setCSR ProgramClass.setPC ProgramClass.readDataMem ProgramClass.writeDataMem
  ProgramClass.tlbReserve ProgramClass.tlbReserved ProgramClass.scStop holds_incPC holds_incPCby2
  holds_NOP holds_shl holds_ushr holds_sshr holds_pcNext holds_pcSet holds_pcForward

attribute [local grind →] Allowed.add Allowed.narrow_add

/-! ## The base instructions -/

namespace BaseIsa

theorem holds_execBranch (cond : BitVec T.xlen → BitVec T.xlen → Bool) :
    C.holds (execBranch m cond) := by
  have h : (getImmB m T).getLsbD 0 = false := getImmB_even m
  unfold execBranch
  grind

theorem holds_execStore (hw : C.write) (size : ℕ) :
    C.holds (execStore m size) := by
  unfold execStore
  grind

@[local grind ←] theorem holds_shiftWord {shift : BitVec 32 → ℕ → Sim T (BitVec 32)}
    (hs : ∀ x n, C.holds (shift x n)) (x : BitVec T.xlen) (n : ℕ) :
    C.holds (shiftWord shift x n) := by
  unfold shiftWord
  grind

section Destination

variable {m} (hd : C.value (getRd m))

include hd

theorem holds_execOpImm (op : BitVec T.xlen → BitVec T.xlen → BitVec T.xlen) :
    C.holds (execOpImm m op) := by
  unfold execOpImm
  grind

theorem holds_execOp (op : BitVec T.xlen → BitVec T.xlen → BitVec T.xlen) :
    C.holds (execOp m op) := by
  unfold execOp
  grind

theorem holds_execLoad (size : ℕ) (data : BitVec 32 → BitVec T.xlen) :
    C.holds (execLoad m size data) := by
  unfold execLoad
  grind

theorem holds_execShiftImm (shift : ℕ)
    {op : BitVec T.xlen → ℕ → Sim T (BitVec T.xlen)} (ho : ∀ x n, C.holds (op x n)) :
    C.holds (execShiftImm m shift op) := by
  unfold execShiftImm
  grind

theorem holds_execShift (mask : BitVec T.xlen)
    {op : BitVec T.xlen → ℕ → Sim T (BitVec T.xlen)} (ho : ∀ x n, C.holds (op x n)) :
    C.holds (execShift m mask op) := by
  unfold execShift
  grind

/-- A checked shift raises exactly from the limit on. -/
theorem holds_execShiftImmChecked {rs2 limit : ℕ} (mask : ℕ)
    {op : BitVec T.xlen → ℕ → Sim T (BitVec T.xlen)} (ho : ∀ x n, C.holds (op x n))
    (hr : limit ≤ rs2 → C.stop ∧ C.holds (raiseException .ILLEGAL_INSTRUCTION m)) :
    C.holds (execShiftImmChecked m rs2 limit mask op) := by
  have hx := holds_execShiftImm C hd (rs2 &&& mask) ho
  unfold execShiftImmChecked
  grind

theorem holds_execJAL : C.holds (execJAL (T := T) m) := by
  have h : (getImmJ m T).getLsbD 0 = false := getImmJ_even m
  unfold execJAL
  grind

theorem holds_execJALR : C.holds (execJALR (T := T) m) := by
  have h (x : BitVec T.xlen) : Allowed C.anyPC (x &&& ~~~1#T.xlen) := by
    refine .of_even ?_
    cases T <;> simp
  unfold execJALR
  grind

end Destination

/-- What sets the PC from a CSR. -/
theorem holds_execMRET (hpc : C.anyPC) (hc : C.csr Csr.MSTATUS) : C.holds (execMRET (T := T)) := by
  have hset (pc : BitVec T.xlen) : C.holds (setPC pc) := C.setPC (.inl hpc)
  unfold execMRET
  grind

theorem holds_execSRET (hpc : C.anyPC) : C.holds (execSRET (T := T)) := by
  have hset (pc : BitVec T.xlen) : C.holds (setPC pc) := C.setPC (.inl hpc)
  unfold execSRET
  grind

theorem holds_execInstruction {code : OpCodes} (h : C.Admits m (.base code)) :
    C.holds (execInstruction m code) := by
  have hd : hasRd code = true → C.value (getRd m) := fun hr =>
    h.value _ (by simp [written, dest, hr])
  cases code <;> simp only [execInstruction]
  case OP_BEQ | OP_BNE | OP_BLT | OP_BGE | OP_BLTU | OP_BGEU =>
    exact holds_pcSet C (holds_execBranch C m _)
  case OP_SB | OP_SH | OP_SW => exact holds_pcNext C (holds_execStore C m (h.write rfl) _)
  case OP_SD =>
    have hw := h.write rfl
    grind [execSD]
  case OP_FENCE =>
    have hs := h.stop (.inr rfl)
    grind [execFENCE]
  case OP_URET | OP_ERROR => exact holds_pcNext C (holds_NOP C (h.stop (.inl rfl)))
  case OP_WFI | OP_SFENCE => grind [execWFI, execSFENCE]
  case OP_ECALL | OP_EBREAK =>
    exact C.bind (C.bind (h.raise _ rfl) fun _ => C.pure _) fun _ => C.pure _
  case OP_MRET =>
    have hpc : C.anyPC := h.pc.resolve_right fun hs => hs.1 rfl
    exact holds_pcSet C (holds_execMRET C hpc (h.csr _ rfl))
  case OP_SRET =>
    have hpc : C.anyPC := h.pc.resolve_right fun hs => hs.2 rfl
    exact holds_pcSet C (holds_execSRET C hpc)
  all_goals replace hd := hd rfl
  case OP_JAL => exact holds_pcSet C (holds_execJAL C hd)
  case OP_JALR => exact holds_pcSet C (holds_execJALR C hd)
  case OP_LUI | OP_AUIPC | OP_LD => grind [execLUI, execAUIPC, execLD]
  case OP_LB | OP_LH | OP_LW | OP_LBU | OP_LHU | OP_LWU =>
    exact holds_pcNext C (holds_execLoad C hd _ _)
  case OP_ADDI | OP_SLTI | OP_SLTIU | OP_XORI | OP_ORI | OP_ANDI | OP_ADDIW =>
    exact holds_pcNext C (holds_execOpImm C hd _)
  case OP_ADD | OP_SUB | OP_SLT | OP_SLTU | OP_XOR | OP_OR | OP_AND | OP_ADDW | OP_SUBW =>
    exact holds_pcNext C (holds_execOp C hd _)
  case OP_SLL => cases T <;> exact holds_pcNext C (holds_execShift C hd _ (holds_shl C))
  case OP_SRL => cases T <;> exact holds_pcNext C (holds_execShift C hd _ (holds_ushr C))
  case OP_SRA => cases T <;> exact holds_pcNext C (holds_execShift C hd _ (holds_sshr C))
  case OP_SRLI => cases T <;> exact holds_pcNext C (holds_execShiftImm C hd _ (holds_ushr C))
  case OP_SRAI => cases T <;> exact holds_pcNext C (holds_execShiftImm C hd _ (holds_sshr C))
  case OP_SRAIW =>
    exact holds_pcNext C (holds_execShiftImm C hd _ (holds_shiftWord C (holds_sshr C)))
  case OP_SLLW | OP_SRLW | OP_SRAW =>
    refine holds_pcNext C (holds_execShift C hd _ fun _ => holds_shiftWord C ?_ _)
    grind
  case OP_SLLI =>
    cases T with
    | RV32 =>
      refine holds_pcForward C (holds_execShiftImmChecked C hd _ (holds_shl C) fun hs => ?_)
      exact ⟨h.stop (.inl (decide_eq_true ⟨rfl, hs⟩)), h.raise _ (if_pos ⟨rfl, hs⟩)⟩
    | RV64 =>
      refine holds_pcForward C (holds_execShiftImmChecked C hd _ (holds_shl C) fun hs => ?_)
      exact absurd (getShamtSlli_lt m) (not_lt.mpr hs)
  case OP_SLLIW | OP_SRLIW =>
    refine holds_pcNext C (holds_execShiftImmChecked C hd _ (fun _ => holds_shiftWord C ?_ _)
      fun hs => ⟨h.stop (.inl (decide_eq_true hs)), h.raise _ (if_pos hs)⟩)
    grind
  case OP_CSRRW | OP_CSRRS | OP_CSRRC | OP_CSRRWI | OP_CSRRSI | OP_CSRRCI =>
    have hc := h.csr _ rfl
    grind [execCSRRW, execCSRRS, execCSRRC, execCSRRWI, execCSRRSI, execCSRRCI, execCSRRxI]

end BaseIsa

/-! ## The extensions -/

namespace CExtension

theorem holds_execBranch (cond : BitVec T.xlen → Bool) :
    C.holds (execBranch m cond) := by
  have h : ((getImmCB m).signExtend T.xlen).getLsbD 0 = false := getImmCB_even m
  unfold execBranch
  grind

theorem and_even (x : BitVec T.xlen) : (x &&& 0xFFFFFFFE#T.xlen).getLsbD 0 = false := by
  have h : (0xFFFFFFFE#T.xlen).getLsbD 0 = false := by cases T <;> rfl
  rw [BitVec.getLsbD_and, h, Bool.and_false]

theorem holds_execJR : C.holds (execJR (T := T) m) := by
  have h (x : BitVec T.xlen) : Allowed C.anyPC (x &&& 0xFFFFFFFE#T.xlen) := .of_even (and_even x)
  unfold execJR
  grind

theorem holds_execJALR (hd : C.value 1) : C.holds (execJALR (T := T) m) := by
  have h (x : BitVec T.xlen) :
      Allowed C.anyPC (((x &&& 0xFFFFFFFE#T.xlen).setWidth 32).setWidth T.xlen) := by
    refine .of_even ?_
    rw [BitVec.getLsbD_setWidth, BitVec.getLsbD_setWidth, and_even]
    simp
  unfold execJALR
  grind

theorem holds_execStoreWord (hw : C.write) (rs1 rs2 : ℕ) (imm : BitVec 32) :
    C.holds (execStoreWord rs1 rs2 imm) := by
  unfold execStoreWord
  grind

theorem holds_execStoreDouble (hw : C.write) (rs1 rs2 : ℕ) (imm : BitVec 32) :
    C.holds (execStoreDouble rs1 rs2 imm) := by
  unfold execStoreDouble
  grind

section Destination

variable {rd : ℕ} (hd : C.value rd)

include hd

theorem holds_execJAL : C.holds (execJAL m rd) := by
  have h : (getImmJ m).getLsbD 0 = false := getImmJ_even m
  unfold execJAL
  grind

theorem holds_execLoadWord (rs1 : ℕ) (imm : BitVec 32) :
    C.holds (execLoadWord rd rs1 imm) := by
  unfold execLoadWord
  grind

theorem holds_execLoadDouble (rs1 : ℕ) (imm : BitVec 32) :
    C.holds (execLoadDouble rd rs1 imm) := by
  unfold execLoadDouble
  grind

theorem holds_execOpImm (rs1 : ℕ) (imm : BitVec T.xlen)
    (op : BitVec T.xlen → BitVec T.xlen → BitVec T.xlen) :
    C.holds (execOpImm rd rs1 imm op) := by
  unfold execOpImm
  grind

theorem holds_execOp (rs2 : ℕ)
    (op : BitVec T.xlen → BitVec T.xlen → BitVec T.xlen) : C.holds (execOp rd rs2 op) := by
  unfold execOp
  grind

theorem holds_execShiftImm {op : BitVec T.xlen → ℕ → Sim T (BitVec T.xlen)}
    (ho : ∀ x n, C.holds (op x n)) : C.holds (execShiftImm m rd op) := by
  unfold execShiftImm
  grind

end Destination

theorem holds_execInstruction {code : OpCCodes} (h : C.Admits m (.c code)) :
    C.holds (execInstruction m code) := by
  have hd {n : ℕ} (hr : dest m code = some n) : C.value n :=
    h.value _ (by simp [written, RiscvTlm.dest, hr])
  cases code <;> simp only [execInstruction]
  case OP_C_EBREAK => exact C.bind (C.bind (h.raise _ rfl) fun _ => C.pure _) fun _ => C.pure _
  case OP_C_ADDI4SPN =>
    have hn := hd rfl
    have hr := fun hi => h.raise _ (if_pos hi)
    grind [execADDI4SPN]
  case OP_C_SW | OP_C_SWSP => exact holds_pcNext C (holds_execStoreWord C (h.write rfl) _ _ _)
  case OP_C_SD | OP_C_SDSP => exact holds_pcNext C (holds_execStoreDouble C (h.write rfl) _ _ _)
  case OP_C_FSW =>
    have hw := h.write rfl
    grind [execFSW_SD]
  case OP_C_SUB | OP_C_XOR | OP_C_OR | OP_C_AND | OP_C_ADD | OP_C_ADDW | OP_C_SUBW =>
    exact holds_pcNext C (holds_execOp C (hd rfl) _ _)
  case OP_C_ADDI | OP_C_LI | OP_C_ANDI => exact holds_pcNext C (holds_execOpImm C (hd rfl) _ _ _)
  case OP_C_J => exact holds_pcSet C (holds_execJAL C m C.value_zero)
  case OP_C_JAL => exact holds_pcSet C (holds_execJAL C m (hd rfl))
  case OP_C_JR => exact holds_pcSet C (holds_execJR C m)
  case OP_C_JALR => exact holds_pcSet C (holds_execJALR C m (hd rfl))
  case OP_C_BEQZ | OP_C_BNEZ => exact holds_pcSet C (holds_execBranch C m _)
  case OP_C_ADDI16SP =>
    have hn := hd rfl
    by_cases h2 : getRd m = 2
    · rw [h2] at hn
      grind [execADDI16SP]
    · grind [execADDI16SP]
  case OP_C_LW => exact holds_pcNext C (holds_execLoadWord C (hd rfl) _ _)
  case OP_C_LD | OP_C_LDSP => exact holds_pcNext C (holds_execLoadDouble C (hd rfl) _ _)
  case OP_C_SRLI => exact holds_pcNext C (holds_execShiftImm C m (hd rfl) (holds_ushr C))
  case OP_C_SRAI => exact holds_pcNext C (holds_execShiftImm C m (hd rfl) (holds_sshr C))
  case OP_C_LWSP | OP_C_ADDIW | OP_C_SLLI | OP_C_MV =>
    have hn := hd rfl
    grind [execLWSP, execADDIW, execSLLI, execMV]
  case OP_C_FLWSP => exact C.pure _
  all_goals exact holds_pcNext C (holds_NOP C (h.stop (.inl rfl)))

end CExtension

namespace MExtension

theorem holds_execOp (hd : C.value (getRd m))
    {op : BitVec T.xlen → BitVec T.xlen → Sim T (BitVec T.xlen)} (ho : ∀ x y, C.holds (op x y)) :
    C.holds (execOp m op) := by
  unfold execOp
  grind

@[local grind ←] theorem holds_sdivHost {w : ℕ} (op : BitVec w → BitVec w → BitVec w)
    (x y : BitVec w) : C.holds (sdivHost op x y) := by
  unfold sdivHost
  grind

@[local grind ←] theorem holds_udivHost {w : ℕ} (op : BitVec w → BitVec w → BitVec w)
    (x y : BitVec w) : C.holds (udivHost op x y) := by
  unfold udivHost
  grind

theorem holds_execInstruction {code : OpMCodes} (h : C.Admits m (.m code)) :
    C.holds (execInstruction m code) := by
  cases code <;> simp only [execInstruction] <;> refine C.bind ?_ fun _ => C.pure _
  case OP_M_ERROR => exact C.scStop (h.stop (.inl rfl))
  all_goals exact holds_execOp C m (h.value _ (List.mem_singleton.mpr rfl)) (by grind)

end MExtension

namespace AExtension

theorem holds_execAmo (hd : C.value (getRd m)) (hw : C.write)
    (op : BitVec 32 → BitVec 32 → BitVec 32) : C.holds (execAmo m op) := by
  unfold execAmo
  grind

theorem holds_execInstruction {code : OpACodes} (h : C.Admits m (.a code)) :
    C.holds (execInstruction m code) := by
  cases code <;> simp only [execInstruction] <;> refine C.bind ?_ fun _ => C.pure _
  case OP_A_ERROR => exact holds_NOP C (h.stop (.inl rfl))
  case OP_A_LR =>
    have hd := h.value _ (List.mem_singleton.mpr rfl)
    have ht := h.tlb rfl
    have hr := fun h0 => h.raise _ (if_pos h0)
    grind [execLR]
  case OP_A_SC =>
    have hd := h.value _ (List.mem_singleton.mpr rfl)
    have hw := h.write rfl
    have ht := h.tlb rfl
    grind [execSC]
  case OP_A_AMOSWAP =>
    have hd : C.value (getRd m) := h.value _ List.mem_cons_self
    have hd₂ : C.value (getRs2 m) := h.value _ (List.mem_cons_of_mem _ List.mem_cons_self)
    have hw := h.write rfl
    grind [execAMOSWAP]
  all_goals exact holds_execAmo C m (h.value _ (List.mem_singleton.mpr rfl)) (h.write rfl) _

end AExtension

/-! ## The switch -/

/-- A decoded word falls into a class that admits all that it may do. -/
theorem ProgramClass.execDecoded {d : Decoded} (h : C.Admits m d) :
    C.holds (execDecoded m d) := by
  cases d with
  | base code =>
    refine C.bind (BaseIsa.holds_execInstruction C m h) fun r => ?_
    exact holds_ite C (C.bind (holds_incPC C) fun _ => C.pure _) (C.pure _)
  | c code =>
    refine C.bind (CExtension.holds_execInstruction C m h) fun r => ?_
    exact holds_ite C (C.bind (holds_incPCby2 C) fun _ => C.pure _) (C.pure _)
  | m code =>
    refine C.bind (MExtension.holds_execInstruction C m h) fun r => ?_
    exact holds_ite C (C.bind (holds_incPC C) fun _ => C.pure _) (C.pure _)
  | a code =>
    refine C.bind (AExtension.holds_execInstruction C m h) fun r => ?_
    exact holds_ite C (C.bind (holds_incPC C) fun _ => C.pure _) (C.pure _)
  | none => exact C.bind (holds_NOP C (h.stop (.inl rfl))) fun _ => C.pure _

end RiscvTlm
