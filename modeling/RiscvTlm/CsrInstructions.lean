import RiscvTlm.CsrEffects

/-!
# The CSR instructions

Each of the six functions exchanges `rd` and the CSR, except that `CSRRS` and `CSRRC` return at
once when `rd` is `x0` and the two immediate forms when the immediate is zero. The manual drops the
read in the first case and the write in the second one.
-/

namespace RiscvTlm

open Prog BaseIsa ExtensionBase

variable {T : CpuType} {s t : System .RV32} {w : BitVec 32}

/-- The CSR instructions. -/
inductive CsrOp
  | CSRRW
  | CSRRS
  | CSRRC
  | CSRRWI
  | CSRRSI
  | CSRRCI
  deriving DecidableEq

namespace CsrOp

variable {op : CsrOp}

def code : CsrOp → OpCodes
  | CSRRW => .OP_CSRRW
  | CSRRS => .OP_CSRRS
  | CSRRC => .OP_CSRRC
  | CSRRWI => .OP_CSRRWI
  | CSRRSI => .OP_CSRRSI
  | CSRRCI => .OP_CSRRCI

/-- The value of `rs1` before the instruction, or the immediate. -/
def operand (w : BitVec 32) (s : System T) : CsrOp → BitVec T.xlen
  | CSRRW | CSRRS | CSRRC => s.regs.getValue (getRs1 w)
  | CSRRWI | CSRRSI | CSRRCI => BitVec.ofNat T.xlen (getRs1 w)

/-- The value the CSR should get. -/
def update {n : ℕ} (old v : BitVec n) : CsrOp → BitVec n
  | CSRRW | CSRRWI => v
  | CSRRS | CSRRSI => old ||| v
  | CSRRC | CSRRCI => old &&& ~~~v

/-- The early returns. -/
def Skips (w : BitVec 32) : CsrOp → Prop
  | CSRRW | CSRRWI => False
  | CSRRS | CSRRC => getRd w = 0
  | CSRRSI | CSRRCI => getRs1 w = 0

end CsrOp

/-- The CSR before the instruction. -/
def oldCSR (w : BitVec 32) (s : System T) : BitVec T.xlen := s.regs.getCSR s.host (getCsr w)

/-- A CSR instruction has done its work. -/
structure CsrDone (op : CsrOp) (w : BitVec 32) (s t : System T) : Prop where
  rd : getRd w ≠ 0 → t.regs.getValue (getRd w) = oldCSR w s
  csr : oldCSR w t = op.update (oldCSR w s) (op.operand w s)
  regs : ∀ n < 32, n ≠ getRd w ∨ n = 0 → t.regs.getValue n = s.regs.getValue n
  csrs : ∀ c ≠ getCsr w, t.regs.getCSR t.host c = s.regs.getCSR s.host c

/-- When an early return changes nothing that the instruction should change. -/
def SkipIsIdle (w : BitVec 32) (s : System T) (op : CsrOp) : Prop :=
  op.Skips w → op.update (oldCSR w s) (op.operand w s) = oldCSR w s ∧
    (getRd w ≠ 0 → s.regs.getValue (getRd w) = oldCSR w s)

/-! ## The two ways through the functions -/

/-- The switch case of a CSR instruction advances the PC, whatever the function returns. -/
theorem run_csrOp_base {code : OpCodes} {x : Sim T Bool} {b : Bool} {s t : System T}
    (hc : BaseIsa.execInstruction w code = pcNext x) (hx : x.run s = .ok b t) :
    (execDecoded w (.base code)).run s = .ok false { t with regs := t.regs.incPC } := by
  have hi : (BaseIsa.execInstruction w code).run s = .ok (true, false) t := hc ▸ run_pcNext hx
  exact run_execDecoded_base hi

theorem run_csrOp_skips {op : CsrOp} (h : op.Skips w) (s : System T) :
    (execDecoded w (.base op.code)).run s = .ok false { s with regs := s.regs.incPC } := by
  cases op
  case CSRRW | CSRRWI => exact h.elim
  case CSRRS =>
    have h0 : getRd w = 0 := h
    exact run_csrOp_base (b := false) rfl (by simp [execCSRRS, h0])
  case CSRRC =>
    have h0 : getRd w = 0 := h
    exact run_csrOp_base (b := true) rfl (by simp [execCSRRC, h0])
  case CSRRSI =>
    have h0 : getRs1 w = 0 := h
    exact run_csrOp_base (b := true) rfl (by simp [execCSRRSI, execCSRRxI, h0])
  case CSRRCI =>
    have h0 : getRs1 w = 0 := h
    exact run_csrOp_base (b := true) rfl (by simp [execCSRRCI, execCSRRxI, h0])

theorem run_csrOp {op : CsrOp} (h : ¬op.Skips w) (s : System T) :
    (execDecoded w (.base op.code)).run s = .ok false
      { csrExchange w s (op.update (oldCSR w s) (op.operand w s)) with
        regs := (csrExchange w s (op.update (oldCSR w s) (op.operand w s))).regs.incPC } := by
  cases op
  case CSRRW => exact run_csrOp_base rfl (run_execCSRRW w s)
  case CSRRWI => exact run_csrOp_base rfl (run_execCSRRWI w s)
  case CSRRS => exact run_csrOp_base rfl (run_execCSRRS w s h)
  case CSRRC => exact run_csrOp_base rfl (run_execCSRRC w s h)
  case CSRRSI => exact run_csrOp_base rfl (run_execCSRRxI w s h fun old v => old ||| v)
  case CSRRCI => exact run_csrOp_base rfl (run_execCSRRxI w s h fun old v => old &&& ~~~v)

/-! ## Read-modify-write -/

/-- The PC increment touches neither the registers nor the CSRs. -/
theorem csrDone_incPC {op : CsrOp} :
    CsrDone op w s { t with regs := t.regs.incPC } ↔ CsrDone op w s t := by
  have hread (c : ℕ) : t.regs.incPC.getCSR t.host c = t.regs.getCSR t.host c :=
    getCSR_congr rfl t.host
  constructor
  · intro h
    exact ⟨h.rd, (hread _).symm.trans h.csr, h.regs, fun c hc => (hread c).symm.trans (h.csrs c hc)⟩
  · intro h
    exact ⟨h.rd, (hread _).trans h.csr, h.regs, fun c hc => (hread c).trans (h.csrs c hc)⟩

/-- An early return does the work exactly when there is none. -/
theorem csrDone_skip_iff {op : CsrOp} (h : op.Skips w) (s : System .RV32) :
    CsrDone op w s s ↔ SkipIsIdle w s op := by
  constructor
  · intro hd _
    exact ⟨hd.csr.symm, hd.rd⟩
  · intro hi
    obtain ⟨hu, hrd⟩ := hi h
    exact ⟨hrd, hu.symm, fun _ _ _ => rfl, fun _ _ => rfl⟩

/-- The exchange does the work in every case. -/
theorem csrDone_exchange {op : CsrOp} (hc : getCsr w ∉ Csr.MISA :: Csr.counters)
    (s : System .RV32) :
    CsrDone op w s (csrExchange w s (op.update (oldCSR w s) (op.operand w s))) := by
  refine ⟨fun h0 => ?_, ?_, fun n hn hne => ?_, fun c hne => ?_⟩
  · rw [csrExchange, Registers.getValue_setCSR, Registers.getValue_setValue _ _ _ _ (getRd_lt w),
      if_pos ⟨rfl, h0⟩]
    rfl
  · refine (getCSR_setCSR hc _ _ _).trans ?_
    exact (BitVec.setWidth_eq _).trans (BitVec.setWidth_eq _)
  · rw [csrExchange, Registers.getValue_setCSR, Registers.getValue_setValue _ _ _ _ hn, if_neg]
    rintro ⟨rfl, h0⟩
    exact hne.elim (fun h => h rfl) h0
  · refine (getCSR_setCSR_ne hne _ _ _).trans ?_
    exact getCSR_congr (congrFun (Registers.setValue_csr _ _ _) c) s.host

/-- A CSR instruction does its work exactly when it does not return early, or when there is nothing
to do. -/
theorem csrDone_iff (op : CsrOp) (w : BitVec 32) (s : System .RV32)
    (hc : getCsr w ∉ Csr.MISA :: Csr.counters) :
    ∃ t, (execDecoded w (.base op.code)).run s = .ok false t ∧
      (CsrDone op w s t ↔ SkipIsIdle w s op) := by
  by_cases h : op.Skips w
  · exact ⟨_, run_csrOp_skips h s, csrDone_incPC.trans (csrDone_skip_iff h s)⟩
  · exact ⟨_, run_csrOp h s, fun _ hs => absurd hs h, fun _ =>
      csrDone_incPC.mpr (csrDone_exchange hc s)⟩

/-- `csrrs x5, mstatus, x6` reads and sets. -/
theorem csrDone_csrrs : ∃ t,
    (execDecoded 0x300322F3 (.base CsrOp.CSRRS.code)).run (start .RV32 []) = .ok false t ∧
      CsrDone .CSRRS 0x300322F3 (start .RV32 []) t := by
  obtain ⟨t, ht, hd⟩ := csrDone_iff .CSRRS 0x300322F3 (start .RV32 []) (by decide)
  have h0 : ¬CsrOp.CSRRS.Skips 0x300322F3 := (by decide : getRd 0x300322F3 ≠ 0)
  exact ⟨t, ht, hd.mpr fun h => absurd h h0⟩

/-- `csrs mstatus, x2` leaves the CSR as it was. -/
theorem not_csrDone_csrs : ∃ t,
    (execDecoded 0x30012073 (.base CsrOp.CSRRS.code)).run (start .RV32 []) = .ok false t ∧
      ¬CsrDone .CSRRS 0x30012073 (start .RV32 []) t :=
  ⟨_, rfl, fun h => absurd h.csr (by decide)⟩

end RiscvTlm
