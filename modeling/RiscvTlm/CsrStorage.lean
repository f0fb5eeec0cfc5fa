import RiscvTlm.TrapReturn

/-!
# The width of the CSR map

The map holds 32-bit values on RV64 as well, so a CSR gives back the low half of what was written.
`Stored` follows an address through the map: a plain write, a vector in `mtvec` up to a trap entry,
a return address in `mepc` up to an `MRET`, and the PC that a trap entry saves.
-/

namespace RiscvTlm

open Prog Transitions

variable {T : CpuType} {s t u : System T} {l l' : CpuThread T} {tr : List (Event T)} {c : ℕ}
  {v x : BitVec 64}

theorem held_mtvec : Held T Csr.MTVEC := fun _ _ => rfl

/-- A trap entry: `RaiseException` in the step that has fetched a word, or a taken interrupt. -/
inductive TrapEntered (s : System T) : System T → Prop
  | exception {w : BitVec 32} {s₁ t : System T} {cause : ExceptionCause}
      (hf : fetch.run s = .ok w s₁) (h : (raiseException cause w).run s₁ = .ok () t) :
      TrapEntered s t
  | interrupt {t : System T} (h : cpuProcessIRQ.run s = .ok true t) : TrapEntered s t

/-- The step from `s` to `t` writes `v` to the CSR `c`. -/
def Writes (c : ℕ) (v : BitVec T.xlen) (s t : System T) : Prop :=
  nextCsrWrite s = some (c, v) ∧ ∃ b, cpuStep.run s = .ok b t

/-- The address `v` is stored in a CSR, and `x` is what comes out of it. -/
inductive Stored : BitVec 64 → BitVec 64 → Prop
  | csr {c : ℕ} (hc : c ∉ Csr.MISA :: Csr.counters) (regs : Registers .RV64) (host : Host)
      (v : BitVec 64) : Stored v ((regs.setCSR c v).getCSR host c)
  | mtvec {v : BitVec 64} {s t u : System .RV64} {l : CpuThread .RV64} {tr : List (Event .RV64)}
      (hw : Writes Csr.MTVEC v s t) (hr : Run CpuThread.next (Spares Csr.MTVEC) ⟨.irq, t⟩ tr l)
      (he : TrapEntered l.cpu u) : Stored v u.regs.registerPC
  | mepc {v : BitVec 64} {s t u : System .RV64} {l : CpuThread .RV64} {tr : List (Event .RV64)}
      {b : Bool} (hw : Writes Csr.MEPC v s t)
      (hr : Run CpuThread.next (fun l e => Spares Csr.MEPC l e ∧ NoException l e) ⟨.irq, t⟩ tr l)
      (ht : .cpuProcessIRQ true ∉ tr) (hm : AtMret l.cpu) (hu : cpuStep.run l.cpu = .ok b u) :
      Stored v u.regs.registerPC
  | entry {s t : System .RV64} (he : TrapEntered s t) :
      Stored s.regs.registerPC (t.regs.getCSR t.host Csr.MEPC)

/-! ## The hops -/

theorem Writes.csr {v : BitVec T.xlen} (h : Writes c v s t) (hc : c ≠ Csr.MISA) :
    t.regs.csr c = v.setWidth 32 := by
  obtain ⟨hv, b, hr⟩ := h
  exact cpuStep_csrWrite hr hc hv

theorem TrapEntered.pc (h : TrapEntered s t) :
    t.regs.registerPC = (s.regs.csr Csr.MTVEC).setWidth T.xlen := by
  cases h with
  | exception hf h =>
    obtain ⟨t', hr, ht⟩ := raiseException_run _ _ _
    obtain ⟨-, rfl⟩ := EStateM.Result.ok.inj (h.symm.trans hr)
    rw [ht.pc, (fetch_frame hf).1]
  | interrupt h =>
    obtain ⟨-, rfl⟩ := cpuProcessIRQ_taken h
    rw [← irqTaken_csr (by decide : Csr.MTVEC ∉ [Csr.MIP, Csr.MEPC, Csr.MCAUSE])]
    rfl

theorem TrapEntered.mepc (h : TrapEntered s t) :
    t.regs.csr Csr.MEPC = s.regs.registerPC.setWidth 32 := by
  cases h with
  | exception hf h =>
    obtain ⟨t', hr, ht⟩ := raiseException_run _ _ _
    obtain ⟨-, rfl⟩ := EStateM.Result.ok.inj (h.symm.trans hr)
    rw [ht.mepc, (fetch_frame hf).1]
  | interrupt h =>
    obtain ⟨-, rfl⟩ := cpuProcessIRQ_taken h
    exact irqTaken_mepc

/-- Only a program that writes `mtvec` changes it. -/
theorem mtvec_run (hr : Run CpuThread.next (Spares Csr.MTVEC) l tr l') :
    l'.cpu.regs.csr Csr.MTVEC = l.cpu.regs.csr Csr.MTVEC := by
  refine hr.invariant (I := fun l' => l'.cpu.regs.csr Csr.MTVEC = l.cpu.regs.csr Csr.MTVEC)
    (fun l₁ e l₂ hl hs hn => ?_) rfl
  rw [← hl]
  cases step_of_next hn with
  | cpuStep h => exact cpuStep_csr h held_mtvec hs (.inr (by decide))
  | taken => exact irqTaken_csr (by decide)
  | down => exact irqDown_csr (by decide)
  | delayed | callInterrupt | wait => rfl

/-! ## What comes out -/

/-- Every way through the map ends with the low half. -/
theorem Stored.eq (h : Stored v x) : x = (v.setWidth 32).setWidth 64 := by
  cases h with
  | csr hc regs host => exact getCSR_setCSR hc _ _ _
  | mtvec hw hr he => rw [he.pc, mtvec_run hr, hw.csr (by decide)]
  | mepc hw hr ht hm hu =>
    rw [(cpuStep_mret hu hm).1, csr_run held_mepc (by decide) hr ht, hw.csr (by decide)]
  | entry he => rw [held_mepc, he.mepc]

/-- A CSR of RV64 gives back exactly the addresses below `2 ^ 32`, and a write changes no other
CSR. -/
theorem stored_eq_iff (h : Stored v x) (regs : Registers .RV64) (host : Host) (c : ℕ)
    (y : BitVec 64) :
    (x = v ↔ v.toNat < 2 ^ 32) ∧
      ∀ c' ≠ c, (regs.setCSR c y).getCSR host c' = regs.getCSR host c' := by
  refine ⟨?_, fun c' hne => getCSR_setCSR_ne hne regs host y⟩
  rw [h.eq]
  exact setWidth_setWidth_eq_iff (T := .RV64) v

/-- `csrrwi x0, mtvec, 8; ecall`, after its first step. -/
def atVector : System .RV64 :=
  endState (cpuStep.run (start .RV64 [0x30545073, 0x00000073]))

/-- The `ECALL` jumps to the vector. -/
theorem stored_vector : Stored 8 (endState (cpuStep.run (irqDown atVector))).regs.registerPC ∧
    (endState (cpuStep.run (irqDown atVector))).regs.registerPC = 8 := by
  have hw : Writes Csr.MTVEC 8 (start .RV64 [0x30545073, 0x00000073]) atVector :=
    ⟨rfl, false, rfl⟩
  have hr : Run CpuThread.next (Spares Csr.MTVEC) ⟨.irq, atVector⟩ [.cpuProcessIRQ false]
      ⟨.step, irqDown atVector⟩ := .cons trivial rfl (.nil _)
  have he : TrapEntered (irqDown atVector) (endState (cpuStep.run (irqDown atVector))) :=
    .exception rfl (rfl : (raiseException .CALL_FROM_M_MODE _).run _ = _)
  have hs := Stored.mtvec hw hr he
  have hiff := (stored_eq_iff hs atVector.regs atVector.host Csr.MTVEC 8).1
  exact ⟨hs, hiff.mpr (by decide)⟩

/-- `lui x1, 0x80000; csrrw x0, mtvec, x1; ecall`, after its first step. -/
def atHighVector : System .RV64 :=
  endState (cpuStep.run (start .RV64 [0x800000B7, 0x30509073, 0x00000073]))

/-- The vector `0xFFFFFFFF80000000` is entered at `0x80000000`. -/
theorem stored_high_vector : ∃ x, Stored 0xFFFFFFFF80000000 x ∧ x ≠ 0xFFFFFFFF80000000 := by
  have hw : Writes Csr.MTVEC 0xFFFFFFFF80000000 atHighVector
      (endState (cpuStep.run atHighVector)) := ⟨rfl, false, rfl⟩
  have hr : Run CpuThread.next (Spares Csr.MTVEC) ⟨.irq, endState (cpuStep.run atHighVector)⟩
      [.cpuProcessIRQ false] ⟨.step, irqDown (endState (cpuStep.run atHighVector))⟩ :=
    .cons trivial rfl (.nil _)
  refine ⟨_, .mtvec hw hr (.exception rfl
    (rfl : (raiseException .CALL_FROM_M_MODE _).run _ = _)), ?_⟩
  decide

end RiscvTlm
