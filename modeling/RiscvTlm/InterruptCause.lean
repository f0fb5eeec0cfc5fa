import RiscvTlm.Interrupts

/-!
# The cause of an interrupt

`call_interrupt` copies the cause it is sent, and nothing reads the copy: a taken interrupt always
leaves the cause number 0 in `mcause` and always raises `MEIP`, the bit of cause number 11. Whether
`mie` enables the cause is not looked at either.
-/

namespace RiscvTlm

open Transitions

variable {T : CpuType} {s t : System T} {l l' l₀ : CpuThread T} {tr : List (Event T)}
  {cause : BitVec T.xlen}

/-- The cause of the last notification. -/
def lastNotified : List (Event T) → Option (BitVec T.xlen)
  | [] => none
  | .callInterrupt cause :: tr => (lastNotified tr).or (some cause)
  | _ :: tr => lastNotified tr

/-- The number of a cause, which is sent with bit 31 set. -/
def causeNumber (cause : BitVec T.xlen) : ℕ := (cause.setWidth 31).toNat

/-- The interrupt of `cause` taken between `s` and `t` was enabled and is reported. -/
structure Reported (cause : BitVec T.xlen) (s t : System T) : Prop where
  mie : s.mie = true
  enabled : (s.regs.getCSR s.host Csr.MIE).getLsbD (causeNumber cause) = true
  mcause : t.regs.getCSR t.host Csr.MCAUSE =
    1#T.xlen <<< (T.xlen - 1) ||| BitVec.ofNat T.xlen (causeNumber cause)
  raised : ∀ i, (t.regs.getCSR t.host Csr.MIP).getLsbD i = true ∧
    (s.regs.getCSR s.host Csr.MIP).getLsbD i = false ↔ i = causeNumber cause

/-- Every interrupt that the run takes is reported with the cause notified last. -/
def Faithful (l₀ : CpuThread T) (tr : List (Event T)) : Prop :=
  ∀ tr₁ tr₂ l₁ l₂, tr = tr₁ ++ .cpuProcessIRQ true :: tr₂ →
    Run CpuThread.next (fun _ _ => True) l₀ tr₁ l₁ →
      l₁.next (.cpuProcessIRQ true) = some l₂ →
        ∃ cause, lastNotified tr₁ = some cause ∧ Reported cause l₁.cpu l₂.cpu

/-! ## A taken interrupt -/

@[simp] theorem irqTaken_mcause : (irqTaken s).regs.csr Csr.MCAUSE = 0x80000000 := by
  have h : (0x80000000#T.xlen).setWidth 32 = 0x80000000#32 := by cases T <;> rfl
  simpa [irqTaken, Registers.setCSR_csr_apply] using h

theorem irqTaken_mip :
    (irqTaken s).regs.csr Csr.MIP = s.regs.csr Csr.MIP ||| MIP_MEIP 32 := by
  have h : (irqTaken s).regs.csr Csr.MIP =
      (s.regs.getCSR s.host Csr.MIP ||| MIP_MEIP T.xlen).setWidth 32 := by
    simp [irqTaken, Registers.setCSR_csr_apply]
  rw [h, held_mip, BitVec.setWidth_or, CpuType.setWidth_setWidth]
  cases T <;> rfl

/-- The bit a taken interrupt raises. -/
theorem irqTaken_raises (hp : s.meip = false) :
    ((irqTaken s).regs.getCSR (irqTaken s).host Csr.MIP).getLsbD 11 = true ∧
      (s.regs.getCSR s.host Csr.MIP).getLsbD 11 = false := by
  have hx : 11 < T.xlen := (by decide : 11 < 32).trans_le T.le_xlen
  rw [held_mip, held_mip, irqTaken_mip, BitVec.getLsbD_setWidth, BitVec.getLsbD_setWidth,
    BitVec.getLsbD_or, decide_eq_true hx]
  exact ⟨by simp, hp⟩

/-- The cause number in `mcause` is 0. -/
theorem irqTaken_cause_eq {n : ℕ} (hn : n < 2 ^ 31)
    (h : (irqTaken s).regs.getCSR (irqTaken s).host Csr.MCAUSE =
      1#T.xlen <<< (T.xlen - 1) ||| BitVec.ofNat T.xlen n) : n = 0 := by
  have hm : (irqTaken s).regs.getCSR (irqTaken s).host Csr.MCAUSE =
      (BitVec.twoPow 32 31).setWidth T.xlen := congrArg (BitVec.setWidth T.xlen) irqTaken_mcause
  refine Nat.eq_of_testBit_eq fun i => ?_
  rw [Nat.zero_testBit]
  by_cases hi : i < 31
  · have hx : i < T.xlen := (hi.trans (by decide)).trans_le T.le_xlen
    have hb := congrArg (fun x => x.getLsbD i) (hm.symm.trans h)
    simp only [BitVec.getLsbD_setWidth, BitVec.getLsbD_twoPow, BitVec.getLsbD_or,
      BitVec.getLsbD_ofNat, hx, decide_true, Bool.true_and] at hb
    rw [decide_eq_false hi.ne', Bool.and_false] at hb
    exact (Bool.or_eq_false_iff.mp hb.symm).2
  · exact Nat.testBit_lt_two_pow (hn.trans_le (Nat.pow_le_pow_right (by decide) (not_lt.mp hi)))

/-- No taken interrupt is reported, whatever its cause. -/
theorem not_reported_irqTaken (hp : s.meip = false) : ¬Reported cause s (irqTaken s) := by
  intro h
  have h0 : causeNumber cause = 0 := irqTaken_cause_eq (BitVec.isLt _) h.mcause
  have h11 : 11 = causeNumber cause := (h.raised 11).mp (irqTaken_raises hp)
  omega

theorem not_reported (hn : l.next (.cpuProcessIRQ true) = some l') :
    ¬Reported cause l.cpu l'.cpu := by
  cases step_of_next hn with
  | taken hi hm hp => exact not_reported_irqTaken hp

/-! ## Runs -/

/-- A run takes no interrupt exactly when no call of `cpu_process_IRQ` finds one to take. -/
theorem not_mem_taken_iff (hr : Run CpuThread.next (fun _ _ => True) l₀ tr l) :
    .cpuProcessIRQ true ∉ tr ↔ Run CpuThread.next (fun l _ => ¬Takes l) l₀ tr l := by
  constructor
  · intro ht
    have hne : ∀ e ∈ tr, e ≠ .cpuProcessIRQ true := fun e he h => ht (h ▸ he)
    induction hr with
    | nil l => exact .nil l
    | cons _ hn hr ih =>
      obtain ⟨he, htr⟩ := List.forall_mem_cons.mp hne
      exact .cons (fun hl => he (takes_next hn hl)) hn
        (ih (fun hm => htr _ hm rfl) htr)
  · intro hq hm
    refine hq.forall_mem (I := fun _ => True) (E := (· ≠ .cpuProcessIRQ true))
      (fun _ _ _ _ _ _ => trivial) (fun l e l' _ hl hn => ?_) trivial _ hm rfl
    cases step_of_next hn with
    | taken hi hm hp => exact absurd ⟨rfl, hi, hm, hp⟩ hl
    | cpuStep | delayed | down | callInterrupt | wait => exact nofun

/-- In every run from reset the interrupts are reported exactly when there is none. -/
theorem faithful_iff {memory : Memory} {PC : BitVec T.xlen} {host : Host}
    (hr : Run CpuThread.next (fun _ _ => True) ⟨.step, reset memory PC host⟩ tr l) :
    Faithful ⟨.step, reset memory PC host⟩ tr ↔
      Run CpuThread.next (fun l _ => ¬Takes l) ⟨.step, reset memory PC host⟩ tr l := by
  rw [← not_mem_taken_iff hr]
  constructor
  · intro hf hm
    obtain ⟨tr₁, tr₂, rfl⟩ := List.append_of_mem hm
    obtain ⟨l₁, h₁, h₂⟩ := hr.exists_of_append
    cases h₂ with
    | cons _ hn _ =>
      obtain ⟨cause, -, hc⟩ := hf _ _ _ _ rfl h₁ hn
      exact not_reported hn hc
  · intro ht tr₁ tr₂ l₁ l₂ he _ _
    exact absurd (he ▸ List.mem_append_right _ List.mem_cons_self) ht

/-- A run of the loop without a notification. -/
theorem faithful_loop :
    Faithful ⟨.step, start .RV32 enableAndLoop⟩ [.cpuStep, .cpuProcessIRQ false] := by
  have hr : Run CpuThread.next (fun _ _ => True) ⟨.step, start .RV32 enableAndLoop⟩
      [.cpuStep, .cpuProcessIRQ false] _ := .cons trivial rfl (.cons trivial rfl (.nil _))
  refine (faithful_iff hr).mpr ((not_mem_taken_iff hr).mp ?_)
  simp

/-- The program enables interrupts but not the one of the timer, which is then taken. -/
theorem not_faithful_timer :
    ∃ l, Run CpuThread.next (fun _ _ => True) ⟨.step, start .RV32 enableAndLoop⟩
        [.cpuStep, .cpuProcessIRQ false, .callInterrupt 0x80000007, .cpuStep, .cpuProcessIRQ true]
        l ∧
      l.cpu.regs.getCSR l.cpu.host Csr.MIE = 0 ∧
      l.cpu.regs.getCSR l.cpu.host Csr.MCAUSE = 0x80000000 ∧
      ¬Faithful ⟨.step, start .RV32 enableAndLoop⟩
        [.cpuStep, .cpuProcessIRQ false, .callInterrupt 0x80000007, .cpuStep,
          .cpuProcessIRQ true] := by
  have hr : Run CpuThread.next (fun _ _ => True) ⟨.step, start .RV32 enableAndLoop⟩
      [.cpuStep, .cpuProcessIRQ false, .callInterrupt 0x80000007, .cpuStep] _ :=
    .cons trivial rfl (.cons trivial rfl (.cons trivial rfl (.cons trivial rfl (.nil _))))
  refine ⟨_, .cons trivial rfl (.cons trivial rfl (.cons trivial rfl (.cons trivial rfl
    (.cons trivial rfl (.nil _))))), rfl, rfl, fun h => ?_⟩
  obtain ⟨cause, hc, hrep⟩ := h [.cpuStep, .cpuProcessIRQ false, .callInterrupt 0x80000007,
    .cpuStep] [] _ _ rfl hr rfl
  cases hc
  exact absurd hrep.enabled (by decide)

end RiscvTlm
