import RiscvTlm.Effects
import RiscvTlm.Steps

/-!
# Exceptions

The state `raiseException` leaves, the words that raise one, and when the trap is precise at the end
of the step: unless the switch drops the `false` that the function returned, and as long as the PC
fits the 32-bit variable it is saved from.
-/

namespace RiscvTlm

open Prog

variable {T : CpuType} {s s₁ t : System T} {w : BitVec 32} {cause : ExceptionCause}

/-! ## The state after `raiseException` -/

/-- The CSRs an exception writes. -/
def trapCsrs : List ℕ := [Csr.MSTATUS, Csr.MEPC, Csr.MCAUSE, Csr.MTVAL]

/-- `t` is the state `s` after the exception `cause`. -/
structure Trapped (cause : ExceptionCause) (s t : System T) : Prop where
  pc : t.regs.registerPC = (s.regs.csr Csr.MTVEC).setWidth T.xlen
  mepc : t.regs.csr Csr.MEPC = s.regs.registerPC.setWidth 32
  mcause : t.regs.csr Csr.MCAUSE = cause.code
  mstatus : t.regs.csr Csr.MSTATUS = s.regs.csr Csr.MSTATUS ||| cause.code
  csr : ∀ c ∉ trapCsrs, t.regs.csr c = s.regs.csr c
  registers : ∀ n, t.regs.getValue n = s.regs.getValue n
  memory : t.bus.memory = s.bus.memory
  log : t.exceptionLog = cause :: s.exceptionLog

theorem raiseException_run (cause : ExceptionCause) (m : BitVec 32) (s : System T) :
    ∃ t, (raiseException cause m).run s = .ok () t ∧ Trapped cause s t := by
  cases cause <;> refine ⟨_, rfl, ?_⟩ <;> constructor <;>
    simp +contextual [Registers.setCSR_csr_apply, Registers.getCSR, trapCsrs]

/-- The checked shifts call `sc_stop` first. -/
theorem scStop_raiseException_run (cause : ExceptionCause) (m : BitVec 32) (s : System T) :
    ∃ t, (do scStop; raiseException cause m : Sim T Unit).run s = .ok () t ∧
      Trapped cause s t := by
  obtain ⟨t, hr, ht⟩ := raiseException_run cause m
    { s with bus := { s.bus with stopped := true } }
  exact ⟨t, (run_bind_ok rfl).trans hr, ht.pc, ht.mepc, ht.mcause, ht.mstatus, ht.csr,
    ht.registers, ht.memory, ht.log⟩

/-! ## The words that raise an exception -/

theorem BaseIsa.execShiftImmChecked_raise {rs2 limit : ℕ} (mask : ℕ)
    (op : BitVec T.xlen → ℕ → Sim T (BitVec T.xlen)) (h : rs2 ≥ limit) (s : System T) :
    ∃ t, Trapped .ILLEGAL_INSTRUCTION s t ∧
      (execShiftImmChecked w rs2 limit mask op).run s = .ok false t := by
  obtain ⟨t, hr, ht⟩ := scStop_raiseException_run .ILLEGAL_INSTRUCTION w s
  refine ⟨t, ht, ?_⟩
  rw [execShiftImmChecked, if_pos h, ← bind_assoc]
  exact run_bind_ok hr

theorem raise_return_run (cause : ExceptionCause) (m : BitVec 32) (b : Bool) (s : System T) :
    ∃ t, Trapped cause s t ∧
      (do raiseException cause m; return b : Sim T Bool).run s = .ok b t := by
  obtain ⟨t, hr, ht⟩ := raiseException_run cause m s
  exact ⟨t, ht, run_bind_ok hr⟩

/-- The switch cases that drop the `false` their function returns. -/
def dropsReturn (d : Decoded) : Bool := d ∈ [.base .OP_SLLIW, .base .OP_SRLIW, .a .OP_A_LR]

/-- A word that raises an exception ends in the trap state, one instruction further when the switch
drops the result. -/
theorem execDecoded_raise {d : Decoded} (h : raiseOf T w d = some cause) (s : System T) :
    ∃ t b, Trapped cause s t ∧ (execDecoded w d).run s =
      .ok b (if dropsReturn d then { t with regs := t.regs.incPC } else t) := by
  unfold raiseOf at h
  split at h
  · obtain ⟨⟨rfl, hs⟩, hc⟩ := Option.ite_none_right_eq_some.mp h
    cases hc
    obtain ⟨t, ht, hr⟩ := BaseIsa.execShiftImmChecked_raise (w := w) 0x1F shl hs s
    exact ⟨t, false, ht, run_execDecoded_base (run_pcForward hr)⟩
  · obtain ⟨hs, hc⟩ := Option.ite_none_right_eq_some.mp h
    cases hc
    obtain ⟨t, ht, hr⟩ :=
      BaseIsa.execShiftImmChecked_raise (w := w) 0x1F (BaseIsa.shiftWord shl) hs s
    exact ⟨t, false, ht, run_execDecoded_base (run_pcNext hr)⟩
  · obtain ⟨hs, hc⟩ := Option.ite_none_right_eq_some.mp h
    cases hc
    obtain ⟨t, ht, hr⟩ := BaseIsa.execShiftImmChecked_raise (w := w) 0x1F
      (fun val1 => BaseIsa.shiftWord ushr (val1 &&& 0xFFFFFFFF#T.xlen)) hs s
    exact ⟨t, false, ht, run_execDecoded_base (run_pcNext hr)⟩
  · obtain ⟨t, ht, hr⟩ := raise_return_run .CALL_FROM_M_MODE w false s
    cases h
    exact ⟨t, true, ht, run_execDecoded_base (run_bind_ok hr)⟩
  · obtain ⟨t, ht, hr⟩ := raise_return_run .BREAK w false s
    cases h
    exact ⟨t, false, ht, run_execDecoded_base (run_pcForward hr)⟩
  · obtain ⟨t, ht, hr⟩ := raise_return_run .BREAK w false s
    cases h
    have hx : (CExtension.execInstruction w .OP_C_EBREAK).run s = .ok (false, true) t :=
      run_bind_ok hr
    exact ⟨t, true, ht, run_execDecoded_c hx⟩
  · obtain ⟨hs, hc⟩ := Option.ite_none_right_eq_some.mp h
    cases hc
    obtain ⟨t, ht, hr⟩ := raise_return_run .ILLEGAL_INSTRUCTION w false s
    have hx : (CExtension.execADDI4SPN w).run s = .ok false t := by
      rw [CExtension.execADDI4SPN, if_pos hs]
      exact hr
    have hi : (CExtension.execInstruction w .OP_C_ADDI4SPN).run s = .ok (false, false) t :=
      run_pcForward hx
    exact ⟨t, false, ht, run_execDecoded_c hi⟩
  · obtain ⟨hs, hc⟩ := Option.ite_none_right_eq_some.mp h
    cases hc
    obtain ⟨t, ht, hr⟩ := raise_return_run .ILLEGAL_INSTRUCTION w false s
    have hx : (AExtension.execLR w).run s = .ok false t := by
      rw [AExtension.execLR, if_pos hs]
      exact hr
    exact ⟨t, false, ht, run_execDecoded_a (run_bind_ok hx)⟩
  · cases h

theorem log_of_raiseOf {d : Decoded} (h : raiseOf T w d = some cause) (s : System T) :
    (endState ((execDecoded w d).run s)).exceptionLog = cause :: s.exceptionLog := by
  obtain ⟨t, b, ht, he⟩ := execDecoded_raise h s
  rw [he, endState_ok]
  split
  · exact ht.log
  · exact ht.log

/-- Exactly the words of `raiseOf` raise an exception. -/
theorem raiseOf_of_log {d : Decoded}
    (h : (endState ((execDecoded w d).run s)).exceptionLog = cause :: s.exceptionLog) :
    raiseOf T w d = some cause := by
  cases hr : raiseOf T w d with
  | none =>
    have hk : Keeps (fun s : System T => s.exceptionLog) (execDecoded w d) :=
      keeps_execDecoded ⟨fun _ _ _ => rfl, fun _ _ => rfl, fun _ _ => rfl, fun _ _ => rfl⟩
        (fun _ _ _ _ => rfl) (.inl hr)
    exact absurd ((hk s).symm.trans h) (List.cons_ne_self _ _).symm
  | some cause' =>
    rw [log_of_raiseOf hr s] at h
    rw [(List.cons.inj h).1]

theorem raiseOf_eq_none {d : Decoded}
    (h : (endState ((execDecoded w d).run s)).exceptionLog = s.exceptionLog) :
    raiseOf T w d = none := by
  cases hr : raiseOf T w d with
  | none => rfl
  | some cause =>
    rw [log_of_raiseOf hr s] at h
    exact absurd h (List.cons_ne_self _ _)

/-! ## Precise exceptions -/

/-- The step from `s` to `t` is a precise trap: nothing but the PC and the trap CSRs has changed. -/
structure PreciseTrap (cause : ExceptionCause) (s t : System T) : Prop where
  pc : t.regs.registerPC = s.regs.getCSR s.host Csr.MTVEC
  mepc : t.regs.getCSR t.host Csr.MEPC = s.regs.registerPC
  mcause : t.regs.getCSR t.host Csr.MCAUSE = cause.code.setWidth T.xlen
  registers : ∀ n, t.regs.getValue n = s.regs.getValue n
  memory : t.bus.memory.mem = s.bus.memory.mem

/-- What the fetch leaves for the instruction. -/
theorem fetch_frame (h : fetch.run s = .ok w s₁) :
    s₁.regs = s.regs ∧ s₁.host = s.host ∧ s₁.exceptionLog = s.exceptionLog ∧
      s₁.bus.memory = s.bus.memory := by
  have hr : Keeps (fun s : System T => (s.regs, s.host, s.exceptionLog)) fetch :=
    keeps_fetch ⟨fun _ _ => rfl, fun _ _ _ _ => rfl, fun _ _ => rfl⟩ fun _ _ => rfl
  have hm := keeps_fetch_memory.eq_ok h
  have hregs := hr.eq_ok h
  simp only [Prod.mk.injEq] at hregs
  exact ⟨hregs.1, hregs.2.1, hregs.2.2, hm⟩

theorem add_four_ne (x : BitVec T.xlen) : x + 4 ≠ x := by
  have h4 : (4 : BitVec T.xlen) ≠ 0 := by cases T <;> decide
  simpa using h4

/-- A `mepc` of 32 bits is the PC exactly when the PC is below `2 ^ 32`. -/
theorem setWidth_setWidth_eq_iff (x : BitVec T.xlen) :
    (x.setWidth 32).setWidth T.xlen = x ↔ x.toNat < 2 ^ 32 := by
  rw [← BitVec.toNat_inj, BitVec.toNat_setWidth, BitVec.toNat_setWidth]
  have h := x.isLt
  have hle : 2 ^ 32 ≤ 2 ^ T.xlen := Nat.pow_le_pow_right (by decide) T.le_xlen
  constructor
  · intro he
    rw [← he]
    exact (Nat.mod_le _ _).trans_lt (Nat.mod_lt _ (by decide))
  · intro hx
    rw [Nat.mod_eq_of_lt hx, Nat.mod_eq_of_lt h]

/-- A step that raises an exception is a precise trap exactly when the switch forwards the result of
the function that raised it and the PC fits 32 bits. -/
theorem preciseTrap_iff (hf : fetch.run s = .ok w s₁)
    (hl : (endState (cpuStep.run s)).exceptionLog = cause :: s.exceptionLog) :
    PreciseTrap cause s (endState (cpuStep.run s)) ↔
      decodeCascade T w ∉ [.base .OP_SLLIW, .base .OP_SRLIW, .a .OP_A_LR] ∧
        s.regs.registerPC.toNat < 2 ^ 32 := by
  obtain ⟨hregs, -, hlog, hmem⟩ := fetch_frame hf
  rw [run_cpuStep hf] at hl ⊢
  rw [← hlog] at hl
  obtain ⟨t, b, ht, hr⟩ := execDecoded_raise (raiseOf_of_log hl) s₁
  have hpc := ht.pc
  have hmepc := ht.mepc
  rw [hregs] at hpc hmepc
  rw [hr, endState_ok]
  cases hd : dropsReturn (decodeCascade T w) with
  | true =>
    have hd' : decodeCascade T w ∈ [.base .OP_SLLIW, .base .OP_SRLIW, .a .OP_A_LR] :=
      of_decide_eq_true hd
    simp only [if_true]
    constructor
    · intro h
      exact absurd (h.pc.trans hpc.symm) (add_four_ne _)
    · rintro ⟨h, -⟩
      exact absurd hd' h
  | false =>
    have hd' : decodeCascade T w ∉ [.base .OP_SLLIW, .base .OP_SRLIW, .a .OP_A_LR] :=
      of_decide_eq_false hd
    simp only [Bool.false_eq_true, if_false]
    have hm : t.regs.getCSR t.host Csr.MEPC = (s.regs.registerPC.setWidth 32).setWidth T.xlen := by
      rw [← hmepc]
      rfl
    constructor
    · intro h
      exact ⟨hd', (setWidth_setWidth_eq_iff _).mp (hm.symm.trans h.mepc)⟩
    · rintro ⟨-, hlt⟩
      exact {
        pc := hpc
        mepc := hm.trans ((setWidth_setWidth_eq_iff _).mpr hlt)
        mcause := congrArg (BitVec.setWidth T.xlen) ht.mcause
        registers := fun n => (ht.registers n).trans (by rw [hregs])
        memory := by rw [ht.memory, hmem] }

/-- `ECALL` at address 0. -/
theorem preciseTrap_ecall :
    PreciseTrap .CALL_FROM_M_MODE (start .RV64 [0x00000073])
      (endState (cpuStep.run (start .RV64 [0x00000073]))) := by
  have hf : fetch.run (start .RV64 [0x00000073]) =
      .ok 0x00000073 (endState (fetch.run (start .RV64 [0x00000073]))) := rfl
  exact (preciseTrap_iff hf rfl).mpr ⟨by decide, by decide⟩

/-- `LR.W` with `rs2 = 1` raises an exception, and the next instruction is the one after the first
of the handler. -/
theorem not_preciseTrap_lr :
    (endState (cpuStep.run (start .RV32 [0x101020AF]))).exceptionLog = [.ILLEGAL_INSTRUCTION] ∧
      ¬PreciseTrap .ILLEGAL_INSTRUCTION (start .RV32 [0x101020AF])
        (endState (cpuStep.run (start .RV32 [0x101020AF]))) := by
  refine ⟨rfl, fun h => ?_⟩
  have hpc : (endState (cpuStep.run (start .RV32 [0x101020AF]))).regs.registerPC = 4 := rfl
  exact absurd (hpc.symm.trans h.pc) (by decide)

end RiscvTlm
