import RiscvTlm.Interrupts

/-!
# Returning from a trap

A trap entry, a handler of any length that writes neither `mepc` nor `mstatus` and enters no further
trap, and `MRET`: what the program finds afterwards. An interrupt is transparent. An exception mixes
its number into `mstatus`, so it is transparent only when those bits were set before, and when `MIE`
was set if `MPIE` was.
-/

namespace RiscvTlm

open Prog Transitions

variable {T : CpuType} {s t u v : System T} {cause : Option ExceptionCause}

/-! ## Entry and return -/

/-- The state `t` is entered from `s` by a trap: an exception with its cause, alone or as part of
the step that raises it, or a taken interrupt. -/
inductive Traps (s : System T) : Option ExceptionCause → System T → Prop
  | raise {cause : ExceptionCause} {m : BitVec 32} {t : System T}
      (h : (raiseException cause m).run s = .ok () t) : Traps s (some cause) t
  | step {cause : ExceptionCause} {b : Bool} {t : System T} (h : cpuStep.run s = .ok b t)
      (hl : t.exceptionLog = cause :: s.exceptionLog) : Traps s (some cause) t
  | interrupt {t : System T} (h : cpuProcessIRQ.run s = .ok true t) : Traps s none t

/-- What a trap entry adds to `mstatus`. -/
def statusBits : Option ExceptionCause → BitVec 32
  | some cause => cause.code
  | none => 0

/-- A taken interrupt was enabled. -/
theorem cpuProcessIRQ_taken (h : cpuProcessIRQ.run s = .ok true t) :
    s.mie = true ∧ t = irqTaken s := by
  rw [run_cpuProcessIRQ] at h
  split at h
  · split at h
    next hd =>
      cases h
      exact ⟨hd.1, rfl⟩
    next => cases h
  · cases h

theorem traps_csr (h : Traps s cause t) :
    t.regs.csr Csr.MEPC = s.regs.registerPC.setWidth 32 ∧
      t.regs.csr Csr.MSTATUS = s.regs.csr Csr.MSTATUS ||| statusBits cause := by
  cases h with
  | raise h =>
    obtain ⟨t', hr, ht⟩ := raiseException_run _ _ s
    obtain ⟨-, rfl⟩ := EStateM.Result.ok.inj (h.symm.trans hr)
    exact ⟨ht.mepc, ht.mstatus⟩
  | step h hl => exact cpuStep_raise h (nextException_of_log h hl)
  | interrupt h =>
    obtain ⟨-, rfl⟩ := cpuProcessIRQ_taken h
    refine ⟨irqTaken_mepc, ?_⟩
    rw [irqTaken_csr (by decide), statusBits]
    exact (BitVec.or_zero).symm

/-- The next step is an `MRET`. -/
def AtMret (s : System T) : Prop :=
  (fetched s).map (decodeCascade T) = some (.base .OP_MRET)

theorem cpuStep_mret {b : Bool} (h : cpuStep.run u = .ok b v) (hm : AtMret u) :
    v.regs.registerPC = (u.regs.csr Csr.MEPC).setWidth T.xlen ∧
      v.regs.csr Csr.MSTATUS =
        (mretStatus ((u.regs.csr Csr.MSTATUS).setWidth T.xlen)).setWidth 32 := by
  obtain ⟨w, u₁, hf, he⟩ := bind_eq_ok h
  have hd : decodeCascade T w = .base .OP_MRET := by
    rw [AtMret, fetched_eq hf] at hm
    exact Option.some_inj.mp hm
  have hi : (BaseIsa.execInstruction w .OP_MRET).run u₁ = .ok (false, false) (mretState u₁) :=
    run_pcSet (run_execMRET u₁)
  rw [hd, run_execDecoded_base hi] at he
  obtain ⟨-, rfl⟩ := EStateM.Result.ok.inj he
  rw [← (fetch_frame hf).1]
  constructor
  · exact Registers.setCSR_registerPC _ _ _
  · have hne : Csr.MSTATUS ≠ Csr.MISA := by decide
    exact (Registers.setCSR_csr_apply _ _ _ _).trans (if_pos ⟨rfl, hne⟩)

/-! ## Transparency -/

/-- The program finds its PC, `MIE`, and `mstatus` up to `MPIE` and `MPP` as they were. -/
structure Transparent (s v : System T) : Prop where
  pc : v.regs.registerPC = s.regs.registerPC
  mie : v.mie = s.mie
  status : ∀ i ∉ [7, 11, 12],
    (v.regs.csr Csr.MSTATUS).getLsbD i = (s.regs.csr Csr.MSTATUS).getLsbD i

/-- `mstatus.MPIE`. -/
def System.mpie (s : System T) : Bool := (s.regs.csr Csr.MSTATUS).getLsbD 7

theorem getLsbD_mretStatus (x : BitVec 32) (i : ℕ) :
    (mretStatus x).getLsbD i =
      (decide (i = 7) || x.getLsbD i || decide (i = 3) && x.getLsbD 7) := by
  have hb (j : ℕ) (hj : j < 32) : (1#32 <<< j).getLsbD i = decide (i = j) := by
    rw [← BitVec.twoPow_eq, BitVec.getLsbD_twoPow]
    grind
  have hx := BitField.and_bit_eq_zero_iff x (i := 7) (by decide)
  unfold mretStatus
  cases h7 : x.getLsbD 7 with
  | false =>
    rw [if_neg (not_not.mpr (hx.mpr h7)), BitVec.getLsbD_or, hb 7 (by decide)]
    grind
  | true =>
    have hne : x &&& MSTATUS_MPIE 32 ≠ 0 := fun h0 => by
      rw [hx.mp h0] at h7
      cases h7
    rw [if_pos hne, BitVec.getLsbD_or, BitVec.getLsbD_or, hb 7 (by decide), hb 3 (by decide)]
    grind

/-- The number of an exception is below 16. -/
theorem code_getLsbD (c : ExceptionCause) {i : ℕ} (hi : 4 ≤ i) : c.code.getLsbD i = false := by
  have hc : c.code.toNat < 2 ^ i :=
    calc c.code.toNat < 2 ^ 4 := by cases c <;> decide
      _ ≤ 2 ^ i := Nat.pow_le_pow_right (by decide) hi
  exact Nat.testBit_lt_two_pow hc

/-- Transparency in terms of the bits that the entry added to `mstatus`. -/
theorem transparent_iff_bits {s v : System .RV32} {bits : BitVec 32}
    (hpc : v.regs.registerPC = s.regs.registerPC)
    (hv : v.regs.csr Csr.MSTATUS = mretStatus (s.regs.csr Csr.MSTATUS ||| bits))
    (hbits : ∀ i, 4 ≤ i → bits.getLsbD i = false) :
    Transparent s v ↔
      s.regs.csr Csr.MSTATUS ||| bits = s.regs.csr Csr.MSTATUS ∧
        (s.mpie = true → s.mie = true) := by
  have hb (i : ℕ) : (v.regs.csr Csr.MSTATUS).getLsbD i =
      (decide (i = 7) || ((s.regs.csr Csr.MSTATUS).getLsbD i || bits.getLsbD i) ||
        decide (i = 3) && s.mpie) := by
    rw [hv, getLsbD_mretStatus, BitVec.getLsbD_or, BitVec.getLsbD_or, hbits 7 (by decide),
      Bool.or_false]
    rfl
  have hmie : v.mie = (s.mie || bits.getLsbD 3 || s.mpie) := by
    have h3 := hb 3
    rw [decide_eq_false (by decide), decide_eq_true rfl, Bool.false_or, Bool.true_and] at h3
    exact h3
  constructor
  · intro h
    have h3 : (s.mie || bits.getLsbD 3 || s.mpie) = s.mie := hmie.symm.trans h.mie
    refine ⟨BitVec.eq_of_getLsbD_eq fun i _ => ?_, by grind⟩
    rw [BitVec.getLsbD_or]
    have hs := h.status i
    have hi := hbits i
    by_cases hi3 : i = 3
    · subst hi3
      have hs3 : (s.regs.csr Csr.MSTATUS).getLsbD 3 = s.mie := rfl
      grind
    · grind
  · rintro ⟨hor, himp⟩
    have hle (i : ℕ) : bits.getLsbD i = true → (s.regs.csr Csr.MSTATUS).getLsbD i = true := by
      intro h
      rw [← hor, BitVec.getLsbD_or, h, Bool.or_true]
    have h3 : bits.getLsbD 3 = true → s.mie = true := hle 3
    refine ⟨hpc, by grind, fun i hi => ?_⟩
    have hli := hle i
    have hs3 : (s.regs.csr Csr.MSTATUS).getLsbD 3 = s.mie := rfl
    have hi7 : i ≠ 7 := fun h => hi (by simp [h])
    rw [hb i]
    by_cases hi3 : i = 3
    · subst hi3
      grind
    · grind

/-- A trap with its handler and `MRET` is transparent exactly when it is an interrupt, or an
exception whose number is already contained in `mstatus`, where `MPIE` implies `MIE`. -/
theorem transparent_iff {s t u v : System .RV32} {p : Point} {tr : List (Event .RV32)} {b : Bool}
    (hs : Traps s cause t)
    (hr : Run CpuThread.next
      (fun l e => (Spares Csr.MEPC l e ∧ Spares Csr.MSTATUS l e) ∧ NoException l e) ⟨p, t⟩ tr
      ⟨.step, u⟩)
    (ht : .cpuProcessIRQ true ∉ tr) (hm : AtMret u) (hv : cpuStep.run u = .ok b v) :
    Transparent s v ↔ ∀ c, cause = some c →
      s.regs.csr Csr.MSTATUS ||| c.code = s.regs.csr Csr.MSTATUS ∧
        (s.mpie = true → s.mie = true) := by
  obtain ⟨hpc, hstatus⟩ := cpuStep_mret hv hm
  obtain ⟨hepc, hentry⟩ := traps_csr hs
  have hmepc : u.regs.csr Csr.MEPC = t.regs.csr Csr.MEPC :=
    csr_run held_mepc (by decide) (hr.mono fun _ _ h => ⟨h.1.1, h.2⟩) ht
  have hmstatus : u.regs.csr Csr.MSTATUS = t.regs.csr Csr.MSTATUS :=
    csr_run held_mstatus (by decide) (hr.mono fun _ _ h => ⟨h.1.2, h.2⟩) ht
  rw [hmepc, hepc, BitVec.setWidth_eq, BitVec.setWidth_eq] at hpc
  rw [hmstatus, hentry, BitVec.setWidth_eq, BitVec.setWidth_eq] at hstatus
  cases cause with
  | none =>
    have hmie : s.mie = true := by
      cases hs with
      | interrupt h => exact (cpuProcessIRQ_taken h).1
    rw [transparent_iff_bits hpc hstatus fun i _ => BitVec.getLsbD_zero]
    constructor
    · intro _ c hc
      cases hc
    · exact fun _ => ⟨BitVec.or_zero, fun _ => hmie⟩
  | some c =>
    rw [transparent_iff_bits hpc hstatus fun i hi => code_getLsbD c hi]
    exact ⟨fun h c' hc => Option.some_inj.mp hc ▸ h, fun h => h c rfl⟩

/-- A notification pending at PC 64, with `addi x5, x0, 1; mret` as the handler. -/
def notified : System .RV32 :=
  let s := start .RV32 [0x00100293, 0x30200073]
  { s with regs := (s.regs.setCSR Csr.MSTATUS 8).setPC 64, interrupt := true }

/-- The handler before its `MRET`. -/
def handled : System .RV32 := irqDown (endState (cpuStep.run (irqTaken notified)))

theorem transparent_notified :
    handled.regs.getValue 5 = 1 ∧ Transparent notified (endState (cpuStep.run handled)) := by
  have ht : Traps notified none (irqTaken notified) := .interrupt rfl
  have hr : Run CpuThread.next
      (fun l e => (Spares Csr.MEPC l e ∧ Spares Csr.MSTATUS l e) ∧ NoException l e)
      ⟨.step, irqTaken notified⟩ [.cpuStep, .cpuProcessIRQ false] ⟨.step, handled⟩ :=
    .cons ⟨⟨by decide, by decide⟩, by decide⟩ rfl (.cons ⟨⟨trivial, trivial⟩, trivial⟩ rfl (.nil _))
  have hv : cpuStep.run handled = .ok false (endState (cpuStep.run handled)) := rfl
  have hm : AtMret handled := rfl
  refine ⟨by decide, (transparent_iff ht hr (by simp) hm hv).mpr ?_⟩
  intro c hc
  cases hc

/-- `csrrwi x0, mtvec, 8; ecall; mret`, after its first step. -/
def atEcall : System .RV32 :=
  endState (cpuStep.run (start .RV32 [0x30545073, 0x00000073, 0x30200073]))

/-- An `ECALL` with `MIE` clear returns with `MIE` set. -/
theorem not_transparent_ecall :
    ∃ t u v, Traps atEcall (some .CALL_FROM_M_MODE) t ∧
      Run CpuThread.next
        (fun l e => (Spares Csr.MEPC l e ∧ Spares Csr.MSTATUS l e) ∧ NoException l e) ⟨.irq, t⟩
        [.cpuProcessIRQ false] ⟨.step, u⟩ ∧
      AtMret u ∧ cpuStep.run u = .ok false v ∧ ¬Transparent atEcall v := by
  have ht : Traps atEcall (some .CALL_FROM_M_MODE) (endState (cpuStep.run atEcall)) :=
    .step (b := true) rfl rfl
  refine ⟨_, irqDown (endState (cpuStep.run atEcall)), _, ht,
    .cons ⟨⟨trivial, trivial⟩, trivial⟩ rfl (.nil _), rfl, rfl, fun h => ?_⟩
  exact absurd h.mie (by decide)

end RiscvTlm
