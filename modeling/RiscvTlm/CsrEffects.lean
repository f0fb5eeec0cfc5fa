import RiscvTlm.Exceptions

/-!
# The CSRs after a step

`csrWrite` is the CSR write of a decoded word with its value, as the code performs it, and
`csrWritten` the CSR it writes in the sense of the manual, where a set or clear with operand `x0`
only reads. A word that does not write a CSR leaves it as it is, unless it raises an exception.
-/

namespace RiscvTlm

open Prog BaseIsa ExtensionBase

variable {T : CpuType} {s s₁ t : System T} {w : BitVec 32} {d : Decoded} {c : ℕ}
  {cause : ExceptionCause}

/-! ## The write of a decoded word -/

/-- The value `MRET` leaves in `mstatus`. -/
def mretStatus {w : ℕ} (status : BitVec w) : BitVec w :=
  (if status &&& MSTATUS_MPIE w ≠ 0 then status ||| MSTATUS_MIE w else status) ||| MSTATUS_MPIE w

/-- The CSR write of a decoded word and its value. -/
def csrWrite (w : BitVec 32) (s : System T) : Decoded → Option (ℕ × BitVec T.xlen)
  | .base .OP_CSRRW => some (getCsr w, s.regs.getValue (getRs1 w))
  | .base .OP_CSRRS =>
    if getRd w = 0 then none
    else some (getCsr w, s.regs.getCSR s.host (getCsr w) ||| s.regs.getValue (getRs1 w))
  | .base .OP_CSRRC =>
    if getRd w = 0 then none
    else some (getCsr w, s.regs.getCSR s.host (getCsr w) &&& ~~~s.regs.getValue (getRs1 w))
  | .base .OP_CSRRWI => some (getCsr w, BitVec.ofNat T.xlen (getRs1 w))
  | .base .OP_CSRRSI =>
    if getRs1 w = 0 then none
    else some (getCsr w, s.regs.getCSR s.host (getCsr w) ||| BitVec.ofNat T.xlen (getRs1 w))
  | .base .OP_CSRRCI =>
    if getRs1 w = 0 then none
    else some (getCsr w, s.regs.getCSR s.host (getCsr w) &&& ~~~BitVec.ofNat T.xlen (getRs1 w))
  | .base .OP_MRET => some (Csr.MSTATUS, mretStatus (s.regs.getCSR s.host Csr.MSTATUS))
  | _ => none

/-- The CSR a decoded word writes in the sense of the manual. -/
def csrWritten (w : BitVec 32) : Decoded → Option ℕ
  | .base .OP_CSRRW | .base .OP_CSRRWI => some (getCsr w)
  | .base .OP_CSRRS | .base .OP_CSRRC | .base .OP_CSRRSI | .base .OP_CSRRCI =>
    if getRs1 w = 0 then none else some (getCsr w)
  | .base .OP_MRET => some Csr.MSTATUS
  | _ => none

theorem csrWrite_of_csrAddressed (h : csrAddressed w d = none) : csrWrite w s d = none := by
  unfold csrAddressed at h
  unfold csrWrite
  grind

theorem raiseOf_of_csrWrite {cv : ℕ × BitVec T.xlen} (h : csrWrite w s d = some cv) :
    raiseOf T w d = none := by
  unfold csrWrite at h
  unfold raiseOf
  split at h <;> grind

theorem csrWritten_of_raiseOf (h : raiseOf T w d = some cause) : csrWritten w d = none := by
  unfold raiseOf at h
  unfold csrWritten
  split at h <;> grind

/-- The code writes only what the manual says, or the value that the CSR reads as. -/
theorem csrWrite_cases {v : BitVec T.xlen} (h : csrWrite w s d = some (c, v)) :
    csrWritten w d = some c ∨ v = s.regs.getCSR s.host c := by
  unfold csrWrite at h
  unfold csrWritten
  split at h <;> grind [Registers.getValue_zero]

/-! ## The CSRs after an instruction -/

/-- The state after a CSR instruction that reads the CSR into `rd` and writes `v`. -/
def csrExchange (w : BitVec 32) (s : System T) (v : BitVec T.xlen) : System T :=
  { s with regs :=
      (s.regs.setValue (getRd w) (s.regs.getCSR s.host (getCsr w))).setCSR (getCsr w) v }

section Runs

variable (w : BitVec 32) (s : System T)

theorem run_execCSRRW :
    (execCSRRW w).run s = .ok true (csrExchange w s (s.regs.getValue (getRs1 w))) := by
  by_cases h : getRd w = 0 <;> simp [-bind_pure_comp, execCSRRW, csrExchange, h]

theorem run_execCSRRWI :
    (execCSRRWI w).run s = .ok true (csrExchange w s (BitVec.ofNat T.xlen (getRs1 w))) := by
  by_cases h : getRd w = 0 <;> simp [-bind_pure_comp, execCSRRWI, csrExchange, h]

theorem run_execCSRRS (h : getRd w ≠ 0) :
    (execCSRRS w).run s = .ok true
      (csrExchange w s (s.regs.getCSR s.host (getCsr w) ||| s.regs.getValue (getRs1 w))) := by
  simp [-bind_pure_comp, execCSRRS, csrExchange, h]

theorem run_execCSRRC (h : getRd w ≠ 0) :
    (execCSRRC w).run s = .ok true
      (csrExchange w s (s.regs.getCSR s.host (getCsr w) &&& ~~~s.regs.getValue (getRs1 w))) := by
  simp [-bind_pure_comp, execCSRRC, csrExchange, h]

theorem run_execCSRRxI (h : getRs1 w ≠ 0) (op : BitVec T.xlen → BitVec T.xlen → BitVec T.xlen) :
    (execCSRRxI w op).run s = .ok true (csrExchange w s
      (op (s.regs.getCSR s.host (getCsr w)) (BitVec.ofNat T.xlen (getRs1 w)))) := by
  simp [-bind_pure_comp, execCSRRxI, csrExchange, h]

/-- The state after `MRET`. -/
def mretState : System T :=
  let regs := s.regs.setPC (s.regs.getCSR s.host Csr.MEPC)
  { s with regs := regs.setCSR Csr.MSTATUS (mretStatus (regs.getCSR s.host Csr.MSTATUS)) }

theorem run_execMRET : execMRET.run s = .ok true (mretState s) := rfl

end Runs

theorem Registers.setCSR_csr_congr {a b : Registers T} (h : a.csr = b.csr) (c : ℕ)
    (v : BitVec T.xlen) : (a.setCSR c v).csr = (b.setCSR c v).csr := by
  funext c'
  rw [setCSR_csr_apply, setCSR_csr_apply, h]

@[simp] theorem csrExchange_csr (w : BitVec 32) (s : System T) (v : BitVec T.xlen) :
    (csrExchange w s v).regs.csr = (s.regs.setCSR (getCsr w) v).csr :=
  Registers.setCSR_csr_congr (Registers.setValue_csr _ _ _) _ _

/-- A switch case that advances the PC leaves the CSRs of its function. -/
theorem execDecoded_pcNext_csr {code : OpCodes} {x : Sim T Bool} {b : Bool}
    (hc : BaseIsa.execInstruction w code = pcNext x) (hx : x.run s = .ok b t) :
    (endState ((execDecoded w (.base code)).run s)).regs.csr = t.regs.csr := by
  have hi : (BaseIsa.execInstruction w code).run s = .ok (true, false) t :=
    hc ▸ run_pcNext hx
  rw [run_execDecoded_base hi]
  rfl

/-- A CSR instruction that skips its write under the condition `p`. -/
theorem execDecoded_exchange_csr {code : OpCodes} {x : Sim T Bool} {v : BitVec T.xlen} {p : Prop}
    [Decidable p] {b : Bool} (hc : BaseIsa.execInstruction w code = pcNext x)
    (hskip : p → x.run s = .ok b s) (hx : ¬p → x.run s = .ok true (csrExchange w s v)) :
    (endState ((execDecoded w (.base code)).run s)).regs.csr =
      match (if p then none else some (getCsr w, v) : Option (ℕ × BitVec T.xlen)) with
      | some (c, v) => (s.regs.setCSR c v).csr
      | none => s.regs.csr := by
  by_cases hp : p
  · rw [execDecoded_pcNext_csr hc (hskip hp), if_pos hp]
  · rw [execDecoded_pcNext_csr hc (hx hp), if_neg hp, csrExchange_csr]

/-- The CSRs after a decoded word that raises no exception. -/
theorem execDecoded_csr (hr : raiseOf T w d = none) (s : System T) :
    (endState ((execDecoded w d).run s)).regs.csr =
      match csrWrite w s d with
      | some (c, v) => (s.regs.setCSR c v).csr
      | none => s.regs.csr := by
  cases ha : csrAddressed w d with
  | none =>
    have hk : Keeps (fun s : System T => s.regs.csr) (execDecoded w d) :=
      keeps_execDecoded ⟨fun s n v => Registers.setValue_csr _ _ _, fun _ _ => rfl, fun _ _ => rfl,
        fun _ _ => rfl⟩ (by simp [ha]) (.inl hr)
    rw [csrWrite_of_csrAddressed ha]
    exact hk s
  | some c =>
    cases d with
    | base code =>
      cases code
      case OP_CSRRW => rw [execDecoded_pcNext_csr rfl (run_execCSRRW w s), csrExchange_csr]; rfl
      case OP_CSRRWI => rw [execDecoded_pcNext_csr rfl (run_execCSRRWI w s), csrExchange_csr]; rfl
      case OP_CSRRS =>
        exact execDecoded_exchange_csr rfl (fun h => by rw [execCSRRS, if_pos h]; rfl)
          (run_execCSRRS w s)
      case OP_CSRRC =>
        exact execDecoded_exchange_csr rfl (fun h => by rw [execCSRRC, if_pos h]; rfl)
          (run_execCSRRC w s)
      case OP_CSRRSI =>
        exact execDecoded_exchange_csr rfl (fun h => by rw [execCSRRSI, execCSRRxI, if_pos h]; rfl)
          (fun h => run_execCSRRxI w s h _)
      case OP_CSRRCI =>
        exact execDecoded_exchange_csr rfl (fun h => by rw [execCSRRCI, execCSRRxI, if_pos h]; rfl)
          (fun h => run_execCSRRxI w s h _)
      case OP_MRET =>
        have hi : (BaseIsa.execInstruction w .OP_MRET).run s = .ok (false, false) (mretState s) :=
          run_pcSet (run_execMRET s)
        rw [run_execDecoded_base hi]
        exact Registers.setCSR_csr_congr rfl _ _
      all_goals cases ha
    | _ => cases ha

/-- A CSR that the map holds, so that reading it and writing it back changes nothing. -/
def Held (T : CpuType) (c : ℕ) : Prop :=
  ∀ (regs : Registers T) host, regs.getCSR host c = (regs.csr c).setWidth T.xlen

/-- The CSRs that read the simulated time instead of the map. -/
def Csr.counters : List ℕ :=
  [Csr.CYCLE, Csr.MCYCLE, Csr.TIME, Csr.CYCLEH, Csr.MCYCLEH, Csr.TIMEH]

theorem held_of_not_mem_counters (hc : c ∉ Csr.counters) : Held T c := by
  intro regs host
  simp only [Csr.counters, List.mem_cons, List.not_mem_nil, or_false, not_or] at hc
  obtain ⟨h₁, h₂, h₃, h₄, h₅, h₆⟩ := hc
  unfold Registers.getCSR
  split <;> first | contradiction | rfl

/-- Reading a CSR after writing it. -/
theorem getCSR_setCSR (hc : c ∉ Csr.MISA :: Csr.counters) (regs : Registers T) (host : Host)
    (v : BitVec T.xlen) : (regs.setCSR c v).getCSR host c = (v.setWidth 32).setWidth T.xlen := by
  have hm : c ≠ Csr.MISA := fun h => hc (h ▸ List.mem_cons_self)
  have hcount : c ∉ Csr.counters := fun h => hc (List.mem_cons_of_mem _ h)
  rw [held_of_not_mem_counters hcount, Registers.setCSR_csr_apply, if_pos ⟨rfl, hm⟩]

/-- A CSR reads the map at its own number only. -/
theorem getCSR_congr {a b : Registers T} (h : a.csr c = b.csr c) (host : Host) :
    a.getCSR host c = b.getCSR host c := by
  unfold Registers.getCSR
  split <;> first | rfl | rw [h]

theorem getCSR_setCSR_ne {c' : ℕ} (h : c' ≠ c) (regs : Registers T) (host : Host)
    (v : BitVec T.xlen) : (regs.setCSR c v).getCSR host c' = regs.getCSR host c' :=
  getCSR_congr (Registers.setCSR_csr_ne _ _ _ _ h) host

theorem setCSR_getCSR (hc : Held T c) (regs : Registers T) (host : Host) (c' : ℕ) :
    (regs.setCSR c' (regs.getCSR host c')).csr c = regs.csr c := by
  rw [Registers.setCSR_csr_apply]
  split
  · next h => rw [← h.1, hc, CpuType.setWidth_setWidth]
  · rfl

/-- A word leaves a CSR as it is unless it writes another value to it. -/
theorem execDecoded_csr_eq (hc : Held T c)
    (hw : ∀ v, csrWrite w s d = some (c, v) → v = s.regs.getCSR s.host c)
    (hr : raiseOf T w d = none ∨ c ∉ trapCsrs) :
    (endState ((execDecoded w d).run s)).regs.csr c = s.regs.csr c := by
  cases h : raiseOf T w d with
  | none =>
    rw [execDecoded_csr h]
    cases hv : csrWrite w s d with
    | none => rfl
    | some cv =>
      obtain ⟨c', v⟩ := cv
      by_cases he : c = c'
      · subst he
        rw [hw v hv]
        exact setCSR_getCSR hc _ _ _
      · exact Registers.setCSR_csr_ne _ _ _ _ he
  | some cause =>
    obtain ⟨t, b, ht, he⟩ := execDecoded_raise h s
    have hc' : c ∉ trapCsrs := hr.resolve_left (by simp [h])
    rw [he, endState_ok, ← ht.csr c hc']
    split <;> rfl

/-! ## The CSRs after a step -/

/-- The word that the next step executes. -/
def fetched (s : System T) : Option (BitVec 32) :=
  match fetch.run s with
  | .ok w _ => some w
  | .error .. => none

/-- The exception of the next step. -/
def nextException (s : System T) : Option ExceptionCause :=
  (fetched s).bind fun w => raiseOf T w (decodeCascade T w)

/-- The CSR that the next step writes. -/
def nextCsrWritten (s : System T) : Option ℕ :=
  (fetched s).bind fun w => csrWritten w (decodeCascade T w)

/-- The CSR write of the next step, as the code performs it. -/
def nextCsrWrite (s : System T) : Option (ℕ × BitVec T.xlen) :=
  (fetched s).bind fun w => csrWrite w s (decodeCascade T w)

section Next

variable (hf : fetch.run s = .ok w s₁)

include hf

theorem fetched_eq : fetched s = some w := by rw [fetched, hf]

theorem nextException_eq : nextException s = raiseOf T w (decodeCascade T w) := by
  rw [nextException, fetched_eq hf, Option.bind_some]

theorem nextCsrWritten_eq : nextCsrWritten s = csrWritten w (decodeCascade T w) := by
  rw [nextCsrWritten, fetched_eq hf, Option.bind_some]

theorem nextCsrWrite_eq : nextCsrWrite s = csrWrite w s (decodeCascade T w) := by
  rw [nextCsrWrite, fetched_eq hf, Option.bind_some]

end Next

/-- A step that raises an exception writes no other CSR. -/
theorem nextCsrWritten_of_exception (h : nextException s = some cause) :
    nextCsrWritten s = none := by
  obtain ⟨w, hw, hx⟩ := Option.bind_eq_some_iff.mp h
  rw [nextCsrWritten, hw, Option.bind_some, csrWritten_of_raiseOf hx]

/-- The interrupt lines are only changed between two steps. -/
theorem cpuStep_interrupt {b : Bool} (h : cpuStep.run s = .ok b t) : t.interrupt = s.interrupt := by
  have hk : Keeps (fun s : System T => s.interrupt) cpuStep := by
    refine keeps_cpuStep ⟨fun _ _ _ => rfl, fun _ _ => rfl, fun _ _ => rfl, fun _ _ => rfl⟩
      ⟨fun _ _ => rfl, fun _ _ _ _ => rfl, fun _ _ => rfl⟩ (fun _ _ _ => rfl) fun cause w s => ?_
    cases cause <;> rfl
  exact hk.eq_ok h

/-- The write of a word depends on the registers and the time only. -/
theorem csrWrite_congr (hregs : s₁.regs = s.regs) (hhost : s₁.host = s.host) :
    csrWrite w s₁ d = csrWrite w s d := by
  simp only [csrWrite, hregs, hhost]

/-- A step leaves a CSR as it is unless it writes another value to it. -/
theorem cpuStep_csr_eq {b : Bool} (h : cpuStep.run s = .ok b t) (hc : Held T c)
    (hw : ∀ v, nextCsrWrite s = some (c, v) → v = s.regs.getCSR s.host c)
    (hr : nextException s = none ∨ c ∉ trapCsrs) : t.regs.csr c = s.regs.csr c := by
  obtain ⟨w, s₁, hf, he⟩ := bind_eq_ok h
  obtain ⟨hregs, hhost, -, -⟩ := fetch_frame hf
  rw [nextCsrWrite_eq hf, ← csrWrite_congr hregs hhost, ← hregs, ← hhost] at hw
  rw [nextException_eq hf] at hr
  have hx := execDecoded_csr_eq hc hw hr
  rwa [he, endState_ok, hregs] at hx

/-- A step that does not write a CSR leaves it as it is. -/
theorem cpuStep_csr {b : Bool} (h : cpuStep.run s = .ok b t) (hc : Held T c)
    (hw : nextCsrWritten s ≠ some c) (hr : nextException s = none ∨ c ∉ trapCsrs) :
    t.regs.csr c = s.regs.csr c := by
  refine cpuStep_csr_eq h hc (fun v hv => ?_) hr
  obtain ⟨w, s₁, hf, -⟩ := bind_eq_ok h
  rw [nextCsrWrite_eq hf] at hv
  rw [nextCsrWritten_eq hf] at hw
  exact (csrWrite_cases hv).resolve_left hw

/-- A step that raises an exception ends in the trap state, up to its PC. -/
theorem cpuStep_raise {b : Bool} (h : cpuStep.run s = .ok b t)
    (hr : nextException s = some cause) :
    t.regs.csr Csr.MEPC = s.regs.registerPC.setWidth 32 ∧
      t.regs.csr Csr.MSTATUS = s.regs.csr Csr.MSTATUS ||| cause.code := by
  obtain ⟨w, s₁, hf, he⟩ := bind_eq_ok h
  rw [nextException_eq hf] at hr
  obtain ⟨t', b', ht, he'⟩ := execDecoded_raise hr s₁
  obtain ⟨-, rfl⟩ := EStateM.Result.ok.inj (he.symm.trans he')
  rw [← (fetch_frame hf).1, ← ht.mepc, ← ht.mstatus]
  constructor <;> split <;> rfl

/-- The exceptions of a step are those of its word. -/
theorem nextException_of_log {b : Bool} (h : cpuStep.run s = .ok b t)
    (hl : t.exceptionLog = cause :: s.exceptionLog) : nextException s = some cause := by
  obtain ⟨w, s₁, hf, he⟩ := bind_eq_ok h
  rw [nextException_eq hf]
  refine raiseOf_of_log (s := s₁) ?_
  rw [he, endState_ok, hl, (fetch_frame hf).2.2.1]

/-- The CSR a step writes holds the value written. -/
theorem cpuStep_csrWrite {b : Bool} {v : BitVec T.xlen} (h : cpuStep.run s = .ok b t)
    (hc : c ≠ Csr.MISA) (hw : nextCsrWrite s = some (c, v)) : t.regs.csr c = v.setWidth 32 := by
  obtain ⟨w, s₁, hf, he⟩ := bind_eq_ok h
  obtain ⟨hregs, hhost, -, -⟩ := fetch_frame hf
  have hw₁ : csrWrite w s₁ (decodeCascade T w) = some (c, v) := by
    rw [← hw, nextCsrWrite_eq hf, csrWrite_congr hregs hhost]
  have hx := execDecoded_csr (raiseOf_of_csrWrite hw₁) s₁
  rw [he, endState_ok, hw₁] at hx
  have hc' : t.regs.csr c = (s₁.regs.setCSR c v).csr c := congrFun hx c
  rwa [Registers.setCSR_csr_apply, if_pos ⟨rfl, hc⟩] at hc'

end RiscvTlm
