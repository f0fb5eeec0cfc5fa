import RiscvTlm.CsrEffects
import RiscvTlm.FetchPaths

/-!
# Even program counters

Every jump and branch computes an even target from an even PC. The PC becomes odd only where it is
loaded from a CSR: `mtvec` by an exception or an interrupt, `mepc` by `MRET` and `sepc` by `SRET`,
none of which clears bit 0.
-/

namespace RiscvTlm

open Prog Transitions

variable {T : CpuType} {s s₁ t : System T} {w : BitVec 32} {d : Decoded} {b : Bool}

def System.EvenPC (s : System T) : Prop := s.regs.registerPC.getLsbD 0 = false

/-- The states with an even PC, each related to itself. -/
def evenRelation (T : CpuType) : StateRelation T where
  rel s t := s = t ∧ s.EvenPC
  anyPC := False
  regs h := congrArg System.regs h.1
  bus h := congrArg System.bus h.1
  tlb h := congrArg System.tlbAEntries h.1
  host h := congrArg System.host h.1
  pc h := .of_even h.2
  setRegs h regs hpc := ⟨by rw [h.1], hpc.resolve_left id⟩
  setBus h bus _ := ⟨by rw [h.1], h.2⟩
  setTlb h tlb := ⟨by rw [h.1], h.2⟩
  log h cause := ⟨by rw [h.1], h.2⟩

/-- The CSR that a decoded word loads the PC from. -/
def loadedCsr (T : CpuType) (w : BitVec 32) (d : Decoded) : Option ℕ :=
  if (raiseOf T w d).isSome then some Csr.MTVEC
  else
    match d with
    | .base .OP_MRET => some Csr.MEPC
    | .base .OP_SRET => some Csr.SEPC
    | _ => none

/-- The CSR that an event loads the PC from. -/
def pcSource (s : System T) : Event T → Option ℕ
  | .cpuStep => (fetched s).bind fun w => loadedCsr T w (decodeCascade T w)
  | .cpuProcessIRQ true => some Csr.MTVEC
  | _ => none

/-- The CSR that the next event loads the PC from holds an even number. -/
def EvenSource (l : CpuThread T) (e : Event T) : Prop :=
  ∀ c, pcSource l.cpu e = some c → (l.cpu.regs.csr c).getLsbD 0 = false

/-! ## One step -/

theorem getLsbD_zero_setWidth (x : BitVec 32) : (x.setWidth T.xlen).getLsbD 0 = x.getLsbD 0 := by
  have hw : 0 < T.xlen := by cases T <;> decide
  rw [BitVec.getLsbD_setWidth, decide_eq_true hw, Bool.true_and]

theorem evenPC_of_staying (hs : s.EvenPC) (hd : loadedCsr T w d = none)
    (h : (execDecoded w d).run s = .ok b t) : t.EvenPC := by
  have hraise : raiseOf T w d = none := by
    cases hr : raiseOf T w d with
    | none => rfl
    | some cause =>
      unfold loadedCsr at hd
      rw [hr] at hd
      cases hd
  have hstay : Staying T w d := by
    unfold loadedCsr at hd
    rw [hraise] at hd
    refine ⟨hraise, ?_, ?_⟩
    · rintro rfl
      cases hd
    · rintro rfl
      cases hd
  exact (respects_execDecoded (evenRelation T) (.inr hstay)).invariant hs h

/-- A word that loads the PC from a CSR leaves it with the bit 0 of that CSR. -/
theorem getLsbD_pc_of_loadedCsr {c : ℕ} (hd : loadedCsr T w d = some c)
    (h : (execDecoded w d).run s = .ok b t) :
    t.regs.registerPC.getLsbD 0 = (s.regs.csr c).getLsbD 0 := by
  unfold loadedCsr at hd
  cases hr : raiseOf T w d with
  | some cause =>
    rw [hr] at hd
    cases hd
    obtain ⟨u, b', hu, he⟩ := execDecoded_raise hr s
    rw [h] at he
    cases he
    split
    · have h4 : (4 : BitVec T.xlen).getLsbD 0 = false := by cases T <;> rfl
      rw [Registers.incPC_registerPC, hu.pc, getLsbD_zero_add, getLsbD_zero_setWidth, h4,
        Bool.xor_false]
    · rw [hu.pc, getLsbD_zero_setWidth]
  | none =>
    rw [hr, if_neg (show ¬(none : Option ExceptionCause).isSome = true from nofun)] at hd
    split at hd
    · cases hd
      have hx : (BaseIsa.execInstruction w .OP_MRET).run s = .ok (false, false) _ :=
        run_pcSet (run_execMRET s)
      rw [run_execDecoded_base hx] at h
      cases h
      exact getLsbD_zero_setWidth _
    · cases hd
      have hx : (BaseIsa.execInstruction w .OP_SRET).run s = .ok (false, false)
          { s with regs := s.regs.setPC (s.regs.getCSR s.host Csr.SEPC) } := rfl
      rw [run_execDecoded_base hx] at h
      cases h
      exact getLsbD_zero_setWidth _
    · cases hd

theorem evenSource_iff {l : CpuThread T} {e : Event T} {c : ℕ} (h : pcSource l.cpu e = some c) :
    EvenSource l e ↔ (l.cpu.regs.csr c).getLsbD 0 = false := by
  unfold EvenSource
  rw [h]
  constructor
  · intro h0
    exact h0 c rfl
  · rintro h0 _ ⟨⟩
    exact h0

theorem evenSource_of_none {l : CpuThread T} {e : Event T} (h : pcSource l.cpu e = none) :
    EvenSource l e := by
  intro c hc
  cases h.symm.trans hc

theorem evenPC_cpuStep_iff {point : Point} (hs : s.EvenPC) (h : cpuStep.run s = .ok b t) :
    t.EvenPC ↔ EvenSource ⟨point, s⟩ .cpuStep := by
  obtain ⟨w, s₁, hf, hx⟩ := bind_eq_ok h
  obtain ⟨hregs, -, -, -⟩ := fetch_frame hf
  have hsrc : pcSource s .cpuStep = loadedCsr T w (decodeCascade T w) := by
    rw [pcSource, fetched_eq hf, Option.bind_some]
  cases hc : loadedCsr T w (decodeCascade T w) with
  | none =>
    have hs₁ : s₁.EvenPC := by
      unfold System.EvenPC
      rw [hregs]
      exact hs
    exact iff_of_true (evenPC_of_staying hs₁ hc hx) (evenSource_of_none (hsrc.trans hc))
  | some c =>
    have hpc := getLsbD_pc_of_loadedCsr hc hx
    rw [hregs] at hpc
    rw [evenSource_iff (hsrc.trans hc)]
    show t.regs.registerPC.getLsbD 0 = false ↔ _
    rw [hpc]

theorem getLsbD_pc_irqTaken (s : System T) :
    (irqTaken s).regs.registerPC.getLsbD 0 = (s.regs.csr Csr.MTVEC).getLsbD 0 := by
  have hcsr := irqTaken_csr (s := s) (c := Csr.MTVEC) (by decide)
  rw [← hcsr]
  exact getLsbD_zero_setWidth _

theorem irqDown_registerPC (s : System T) : (irqDown s).regs.registerPC = s.regs.registerPC := by
  unfold irqDown
  split
  · rfl
  · exact Registers.setCSR_registerPC _ _ _

theorem evenPC_next_iff {l l' : CpuThread T} {e : Event T} (hl : l.cpu.EvenPC)
    (h : l.next e = some l') : l'.cpu.EvenPC ↔ EvenSource l e := by
  cases step_of_next h with
  | cpuStep hs => exact evenPC_cpuStep_iff hl hs
  | @taken s hi hm hp =>
    rw [evenSource_iff rfl]
    show (irqTaken s).regs.registerPC.getLsbD 0 = false ↔ _
    rw [getLsbD_pc_irqTaken]
  | delayed => exact iff_of_true hl nofun
  | @down s hi =>
    have hk : (irqDown s).EvenPC := by
      unfold System.EvenPC
      rw [irqDown_registerPC]
      exact hl
    exact iff_of_true hk nofun
  | callInterrupt => exact iff_of_true hl nofun
  | wait => exact iff_of_true hl nofun

/-! ## Runs -/

/-- The PC is even in every state of the run. -/
def StaysEven (l₀ : CpuThread T) (tr : List (Event T)) : Prop :=
  ∀ tr₁ tr₂ l, tr = tr₁ ++ tr₂ → Run CpuThread.next (fun _ _ => True) l₀ tr₁ l → l.cpu.EvenPC

/-- In every run from an even PC the PC stays even exactly when every exception and interrupt finds
an even `mtvec`, every `MRET` an even `mepc` and every `SRET` an even `sepc`. -/
theorem staysEven_iff {l₀ l : CpuThread T} {tr : List (Event T)} (h₀ : l₀.cpu.EvenPC)
    (hr : Run CpuThread.next (fun _ _ => True) l₀ tr l) :
    StaysEven l₀ tr ↔ Run CpuThread.next EvenSource l₀ tr l := by
  unfold StaysEven
  exact Run.forall_reached_iff (I := fun l => l.cpu.EvenPC)
    (fun _ _ _ hl hn => evenPC_next_iff hl hn) hr h₀

/-- `mret` with the initial `mepc`. -/
theorem staysEven_mret :
    StaysEven ⟨.step, start .RV32 [0x30200073]⟩ [.cpuStep, .cpuProcessIRQ false] := by
  have hsrc : EvenSource ⟨.step, start .RV32 [0x30200073]⟩ .cpuStep := by
    intro c hc
    have hmepc : pcSource (start .RV32 [0x30200073]) .cpuStep = some Csr.MEPC := rfl
    cases hmepc.symm.trans hc
    rfl
  obtain ⟨l, hr⟩ : ∃ l, Run CpuThread.next EvenSource ⟨.step, start .RV32 [0x30200073]⟩
      [.cpuStep, .cpuProcessIRQ false] l := ⟨_, .cons hsrc rfl (.cons nofun rfl (.nil _))⟩
  have h₀ : (start .RV32 [0x30200073]).EvenPC := rfl
  exact (staysEven_iff h₀ (hr.mono fun _ _ _ => trivial)).mpr hr

/-- `csrrwi x0, mepc, 1` and `mret`: the PC is 1. -/
theorem not_staysEven_mret :
    (∃ l, Run CpuThread.next (fun _ _ => True) ⟨.step, start .RV32 [0x3410D073, 0x30200073]⟩
      [.cpuStep, .cpuProcessIRQ false, .cpuStep] l) ∧
    ¬StaysEven ⟨.step, start .RV32 [0x3410D073, 0x30200073]⟩
      [.cpuStep, .cpuProcessIRQ false, .cpuStep] := by
  obtain ⟨l, hr, hl⟩ : ∃ l, Run CpuThread.next (fun _ _ => True)
      ⟨.step, start .RV32 [0x3410D073, 0x30200073]⟩ [.cpuStep, .cpuProcessIRQ false, .cpuStep] l ∧
        ¬l.cpu.EvenPC :=
    ⟨_, .cons trivial rfl (.cons trivial rfl (.cons trivial rfl (.nil _))), fun h => nomatch h⟩
  exact ⟨⟨l, hr⟩, fun h => hl (h _ [] l (List.append_nil _).symm hr)⟩

end RiscvTlm
