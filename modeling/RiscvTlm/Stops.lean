import RiscvTlm.AccessHistory
import RiscvTlm.FetchPaths

/-!
# When the simulation stops

`sc_stop` is called by the bus past its last target, by what is not implemented, by a breakpoint, by
a shift that is refused and by a fence before an `ECALL`. `StepStops` says so of a step before it is
made, and a run of the thread goes on exactly as long as it does not hold.
-/

namespace RiscvTlm

open Prog Transitions ExtensionBase

variable {T : CpuType} {s s₁ t : System T} {w : BitVec 32} {α β : Type}

/-! ## What calls `sc_stop` -/

/-- The word that `FENCE` looks at is an `ECALL`. -/
def beforeEcall (s : System T) : Bool :=
  match (readDataMem (((s.regs.registerPC.setWidth 32 + 4 : BitVec 32)).setWidth 64) 4).run s with
  | .ok antInst _ => antInst = 0x00000073
  | .error .. => false

/-- Executing a decoded word in `s` calls `sc_stop`. -/
def ExecStops (w : BitVec 32) (s : System T) (d : Decoded) : Prop :=
  stopping T w d = true ∨ d = .base .OP_FENCE ∧ beforeEcall s = true

/-- A fetch over the bus from behind the last target. -/
def FetchStops (s : System T) : Prop :=
  s.dmiPtrValid = false ∧ TO_HOST_ADDRESS ≤ s.regs.registerPC.toNat

/-- The step from `s` calls `sc_stop`. -/
def StepStops (s : System T) : Prop :=
  FetchStops s ∨ match fetch.run s with
    | .ok w s₁ => ExecStops w s₁ (decodeCascade T w)
    | .error .. => False

instance ExecStops.decidable (w : BitVec 32) (s : System T) (d : Decoded) :
    Decidable (ExecStops w s d) :=
  inferInstanceAs (Decidable (_ ∨ _))

instance FetchStops.decidable (s : System T) : Decidable (FetchStops s) :=
  inferInstanceAs (Decidable (_ ∧ _))

instance StepStops.decidable (s : System T) : Decidable (StepStops s) := by
  unfold StepStops
  split <;> infer_instance

theorem stepStops_iff (h : fetch.run s = .ok w s₁) :
    StepStops s ↔ FetchStops s ∨ ExecStops w s₁ (decodeCascade T w) := by
  rw [StepStops, h]

/-! ## Programs that go on -/

/-- A run of `x` that returns does not call `sc_stop`. -/
def GoesOn (x : Sim T α) : Prop := Leads (fun s t => t.bus.stopped = s.bus.stopped) x

/-- A run of `x` that returns has called `sc_stop`. -/
def Stops (x : Sim T α) : Prop := Leads (fun _ t => t.bus.stopped = true) x

variable {x : Sim T α} {k : α → Sim T β}

theorem goesOn_pure (a : α) : GoesOn (pure a : Sim T α) :=
  Leads.pure (R := fun s t : System T => t.bus.stopped = s.bus.stopped) (fun _ => rfl) a

theorem goesOn_throw (e : Fault) : GoesOn (throw e : Sim T α) := Leads.throw e

theorem goesOn_bind (hx : GoesOn x) (hk : ∀ a, GoesOn (k a)) :
    GoesOn (x >>= k) := Leads.bind (fun _ _ _ h h' => h'.trans h) hx hk

theorem stops_bind (hx : Stops x) (hk : ∀ a, GoesOn (k a)) : Stops (x >>= k) :=
  Leads.bind (fun _ _ _ h h' => h'.trans h) hx hk

/-! ### The building blocks -/

theorem stops_scStop : Stops (T := T) scStop := Leads.modify fun _ => rfl

theorem stops_NOP : Stops (T := T) NOP := stops_bind stops_scStop fun _ => goesOn_pure _

/-- A transaction that is sent with an error status and comes back without one was routed to a
target. -/
theorem BusCtrl.stopped_of_bTransport {bus : Bus} {host : Host} {trans : Payload}
    {r : Bus × Payload} (h : bTransport bus host trans = .ok r)
    (hlt : trans.address.toNat < TO_HOST_ADDRESS) : r.1.stopped = bus.stopped := by
  have hn : ¬trans.address.toNat / 4 ≥ TO_HOST_ADDRESS / 4 := by
    unfold TO_HOST_ADDRESS at hlt ⊢
    omega
  unfold bTransport at h
  dsimp only at h
  rw [if_neg hn] at h
  split_ifs at h
  · cases h
    rfl
  · cases h
    rfl
  · split at h
    · cases h
      rfl
    · cases h

theorem BusCtrl.bTransport_toHost (bus : Bus) (host : Host) {trans : Payload}
    (h : TO_HOST_ADDRESS ≤ trans.address.toNat) :
    bTransport bus host trans = .ok ({ bus with stopped := true }, trans) :=
  if_pos (Nat.div_le_div_right h)

/-- A transaction that is sent with the status `incomplete` and must come back as `ok` does not call
`sc_stop`. -/
theorem goesOn_transport {trans : Payload} {k : Payload → Sim T α}
    (hs : trans.responseStatus = .incomplete) (hk : ∀ p, GoesOn (k p)) (e : Fault) :
    GoesOn (bTransport trans >>= fun p => do
      if p.isResponseError then throw e
      k p) := by
  intro s a t h
  obtain ⟨p, u, hp, hu⟩ := bind_eq_ok h
  obtain ⟨r, hr, rfl, rfl⟩ := bTransport_eq_ok hp
  by_cases hlt : trans.address.toNat < TO_HOST_ADDRESS
  · have hb := BusCtrl.stopped_of_bTransport hr hlt
    split at hu
    · cases hu
    · exact (hk _ _ _ _ hu).trans hb
  · rw [BusCtrl.bTransport_toHost _ _ (not_lt.mp hlt)] at hr
    cases hr
    have he : trans.isResponseError = true := by
      unfold Payload.isResponseError
      rw [hs]
      rfl
    rw [if_pos he] at hu
    cases hu

theorem goesOn_readDataMem (addr : BitVec 64) (size : ℕ) :
    GoesOn (T := T) (readDataMem addr size) := by
  intro s a t h
  exact goesOn_transport rfl (fun p => goesOn_pure p.data) _ s a t h

theorem goesOn_writeDataMem (addr : BitVec 64) (data : BitVec 32) (size : ℕ) :
    GoesOn (T := T) (writeDataMem addr data size) := by
  intro s a t h
  exact goesOn_transport rfl (fun _ => goesOn_pure _) _ s a t h

theorem stops_pcNext {x : Sim T Bool} (h : Stops x) : Stops (pcNext x) :=
  stops_bind h fun _ => goesOn_pure _

theorem stops_pcForward {x : Sim T Bool} (h : Stops x) : Stops (pcForward x) :=
  stops_bind h fun _ => goesOn_pure _

theorem goesOn_tlbReserved (a : BitVec 32) :
    GoesOn (T := T) (AExtension.tlbReserved a) := by
  intro s b t h
  rw [AExtension.tlbReserved, run_get_bind] at h
  split at h <;> cases h <;> rfl

/-- The programs that do not call `sc_stop`, with any other change of the state. -/
def goingOn : ProgramClass T where
  holds x := GoesOn x
  anyPC := True
  value _ := True
  csr _ := True
  write := True
  tlb := True
  stop := False
  value_zero := trivial
  pure := goesOn_pure
  throw := goesOn_throw
  bind := goesOn_bind
  getValue _ := Leads.of_keeps fun _ => rfl
  getCSR _ := Leads.of_keeps fun _ => rfl
  getPC_bind hk := goesOn_bind (Leads.of_keeps fun _ => rfl) fun pc => hk pc (.inl trivial)
  setValue _ _ := Leads.modify fun _ => rfl
  setCSR _ _ := Leads.modify fun _ => rfl
  setPC _ := Leads.modify fun _ => rfl
  readDataMem := goesOn_readDataMem
  writeDataMem addr data size _ := goesOn_writeDataMem addr data size
  tlbReserve _ _ := Leads.modify fun _ => rfl
  tlbReserved a _ := goesOn_tlbReserved a
  scStop h := h.elim

/-- Of the exceptions only the breakpoint stops the simulation. -/
theorem goesOn_raiseException {cause : ExceptionCause} (hc : cause ≠ .BREAK) (inst : BitVec 32) :
    GoesOn (T := T) (raiseException cause inst) :=
  holds_raiseException goingOn inst trivial (fun _ => trivial) (fun h => hc h)
    (Leads.modify fun _ => rfl)

theorem stops_raiseException (inst : BitVec 32) :
    Stops (T := T) (raiseException .BREAK inst) := by
  intro s a t h
  cases h
  rfl

/-! ## The instructions -/

namespace BaseIsa

variable (m : BitVec 32)

theorem stops_execShiftImmChecked {rs2 limit : ℕ} (mask : ℕ)
    {op : BitVec T.xlen → ℕ → Sim T (BitVec T.xlen)} (h : limit ≤ rs2) :
    Stops (execShiftImmChecked m rs2 limit mask op) := by
  rw [execShiftImmChecked, if_pos h]
  refine stops_bind stops_scStop fun _ => ?_
  exact goesOn_bind (goesOn_raiseException (by decide) m) fun _ => goesOn_pure _

theorem stops_execInstruction {code : OpCodes} (h : stopping T m (.base code) = true) :
    Stops (T := T) (execInstruction m code) := by
  cases code <;> simp only [execInstruction]
  case OP_EBREAK =>
    exact stops_pcForward (stops_bind (stops_raiseException m) fun _ => goesOn_pure _)
  case OP_URET | OP_ERROR => exact stops_pcNext stops_NOP
  case OP_SLLI =>
    cases T with
    | RV32 =>
      have hle : 0x20 ≤ getShamt m := by simpa [stopping] using h
      exact stops_pcForward (stops_execShiftImmChecked m _ hle)
    | RV64 => exact absurd h (by simp [stopping])
  case OP_SLLIW | OP_SRLIW =>
    have hle : 0x20 ≤ getShamt m := by simpa [stopping] using h
    exact stops_pcNext (stops_execShiftImmChecked m _ hle)
  all_goals cases h

end BaseIsa

namespace CExtension

variable (m : BitVec 32)

theorem stops_execInstruction {code : OpCCodes} (h : stopping T m (.c code) = true) :
    Stops (T := T) (execInstruction m code) := by
  cases code <;> simp only [execInstruction]
  case OP_C_EBREAK =>
    refine stops_bind ?_ fun _ => goesOn_pure _
    exact stops_bind (stops_raiseException m) fun _ => goesOn_pure _
  case OP_C_FLD | OP_C_FLW | OP_C_FSD | OP_C_NOP | OP_C_LUI | OP_C_FLDSP | OP_C_FSDSP | OP_C_FSWSP
    | OP_C_ERROR => exact stops_pcNext stops_NOP
  all_goals cases h

end CExtension

namespace MExtension

variable (m : BitVec 32)

theorem stops_execInstruction {code : OpMCodes} (h : stopping T m (.m code) = true) :
    Stops (T := T) (execInstruction m code) := by
  cases code
  case OP_M_ERROR => exact stops_bind stops_scStop fun _ => goesOn_pure _
  all_goals cases h

end MExtension

namespace AExtension

variable (m : BitVec 32)

theorem stops_execInstruction {code : OpACodes} (h : stopping T m (.a code) = true) :
    Stops (T := T) (execInstruction m code) := by
  cases code
  case OP_A_ERROR => exact stops_bind stops_NOP fun _ => goesOn_pure _
  all_goals cases h

end AExtension

/-! ## A decoded word -/

section Word

variable {d : Decoded}

/-- The PC increment that may follow an instruction. -/
theorem goesOn_incPC_return {c : Bool} {b : Bool} {x : Sim T Unit} (hx : GoesOn x) :
    GoesOn (do
      if c then x
      return b : Sim T Bool) :=
  Leads.ite (goesOn_bind hx fun _ => goesOn_pure _) (goesOn_pure _)

/-- Among the words that do not stop there is no breakpoint. -/
theorem ne_break_of_raiseOf {cause : ExceptionCause} (h : stopping T w d = false)
    (hc : raiseOf T w d = some cause) : cause ≠ .BREAK := by
  rintro rfl
  cases d with
  | base code | c code | a code => cases code <;> simp [raiseOf, stopping] at h hc
  | m code => cases hc
  | none => cases hc

theorem goesOn_execDecoded (h : stopping T w d = false) (hf : d ≠ .base .OP_FENCE) :
    GoesOn (T := T) (execDecoded w d) := by
  refine goingOn.execDecoded w ⟨fun _ _ => trivial, fun _ _ => trivial, fun _ => trivial,
    fun _ => trivial, fun hs => ?_, fun cause hc => ?_, .inl trivial⟩
  · rcases hs with hs | hs
    · exact absurd (h.symm.trans hs) (by decide)
    · exact hf hs
  · exact goesOn_raiseException (ne_break_of_raiseOf h hc) w

theorem stops_execDecoded (h : stopping T w d = true) : Stops (T := T) (execDecoded w d) := by
  cases d with
  | base code =>
    exact stops_bind (BaseIsa.stops_execInstruction w h) fun _ =>
      goesOn_incPC_return (holds_incPC goingOn)
  | c code =>
    exact stops_bind (CExtension.stops_execInstruction w h) fun _ =>
      goesOn_incPC_return (holds_incPCby2 goingOn)
  | m code =>
    exact stops_bind (MExtension.stops_execInstruction w h) fun _ =>
      goesOn_incPC_return (holds_incPC goingOn)
  | a code =>
    exact stops_bind (AExtension.stops_execInstruction w h) fun _ =>
      goesOn_incPC_return (holds_incPC goingOn)
  | none => exact stops_bind stops_NOP fun _ => goesOn_pure _

/-- `FENCE` calls `sc_stop` exactly before an `ECALL`. -/
theorem execFENCE_stopped {b : Bool} (h : (execDecoded w (.base .OP_FENCE)).run s = .ok b t) :
    t.bus.stopped = (s.bus.stopped || beforeEcall s) := by
  obtain ⟨r, u, hr, hu⟩ := bind_eq_ok h
  have hinc := goesOn_incPC_return (holds_incPC goingOn) u b t hu
  obtain ⟨b', v, hv, hv'⟩ := bind_eq_ok hr
  cases hv'
  rw [BaseIsa.execFENCE, run_bind_ok (run_getPC s)] at hv
  obtain ⟨antInst, s', hread, hrest⟩ := bind_eq_ok hv
  have hgo := goesOn_readDataMem _ _ _ _ _ hread
  rw [hinc, beforeEcall, hread]
  dsimp only at hrest ⊢
  split at hrest
  next he =>
    cases hrest
    rw [decide_eq_true he, Bool.or_true]
  next he =>
    cases hrest
    rw [decide_eq_false he, Bool.or_false, hgo]

/-- Exactly the words of `ExecStops` call `sc_stop`. -/
theorem execDecoded_stopped_iff {b : Bool} (h : (execDecoded w d).run s = .ok b t) :
    t.bus.stopped = true ↔ s.bus.stopped = true ∨ ExecStops w s d := by
  by_cases hf : d = .base .OP_FENCE
  · subst hf
    rw [execFENCE_stopped h, Bool.or_eq_true]
    exact or_congr_right ⟨fun he => .inr ⟨rfl, he⟩, fun he => (he.resolve_left nofun).2⟩
  · cases hd : stopping T w d with
    | true => exact iff_of_true (stops_execDecoded hd s b t h) (.inr (.inl hd))
    | false =>
      have hn : ¬ExecStops w s d := by
        rintro (hd' | hd')
        · exact absurd (hd.symm.trans hd') (by decide)
        · exact hf hd'.1
      have hgo : t.bus.stopped = s.bus.stopped := goesOn_execDecoded hd hf s b t h
      rw [hgo, or_iff_left hn]

end Word

/-! ## A step -/

theorem fetch_stopped_iff (h : fetch.run s = .ok w s₁) :
    s₁.bus.stopped = true ↔ s.bus.stopped = true ∨ FetchStops s := by
  obtain ⟨hv, -, rfl⟩ | ⟨hv, r, hr, -, rfl⟩ := fetch_cases h
  · exact (or_iff_left fun hf => absurd (hv.symm.trans hf.1) (by decide)).symm
  · rw [apply_ite System.bus]
    show (if r.2.dmiAllowed then r.1 else r.1).stopped = true ↔ _
    rw [ite_self]
    by_cases hlt : s.regs.registerPC.toNat < TO_HOST_ADDRESS
    · have hb := BusCtrl.stopped_of_bTransport hr ((fetchTrans_toNat s).trans_lt hlt)
      rw [hb]
      exact (or_iff_left fun hf => absurd hf.2 (not_le.mpr hlt)).symm
    · have hle := not_lt.mp hlt
      have hb := BusCtrl.bTransport_toHost s.bus s.host (hle.trans_eq (fetchTrans_toNat s).symm)
      rw [hb] at hr
      cases hr
      exact iff_of_true rfl (.inr ⟨hv, hle⟩)

/-- A step that returns has called `sc_stop` exactly when `StepStops` says so before it. -/
theorem cpuStep_stopped_iff {b : Bool} (h : cpuStep.run s = .ok b t) :
    t.bus.stopped = true ↔ s.bus.stopped = true ∨ StepStops s := by
  obtain ⟨w, s₁, hf, hx⟩ := bind_eq_ok h
  rw [execDecoded_stopped_iff hx, fetch_stopped_iff hf, stepStops_iff hf, or_assoc]

/-! ## Runs of the thread -/

/-- A step of the thread that does not call `sc_stop`. -/
def StaysOn (l : CpuThread T) (e : Event T) : Prop :=
  match e with
  | .cpuStep => ¬StepStops l.cpu
  | _ => True

theorem stopped_next_iff {l l' : CpuThread T} {e : Event T} (h : l.next e = some l')
    (hl : l.cpu.bus.stopped = false) : l'.cpu.bus.stopped = false ↔ StaysOn l e := by
  cases step_of_next h with
  | @cpuStep s t b hs =>
    have hi := cpuStep_stopped_iff hs
    rw [or_iff_right (by rw [hl]; decide)] at hi
    rw [← Bool.not_eq_true]
    exact not_congr hi
  | taken => exact iff_of_true hl trivial
  | delayed => exact iff_of_true hl trivial
  | down => exact iff_of_true ((congrArg Bus.stopped irqDown_bus).trans hl) trivial
  | callInterrupt => exact iff_of_true hl trivial
  | wait => exact iff_of_true hl trivial

/-- A stopped simulation stays stopped. -/
theorem stopped_next {l l' : CpuThread T} {e : Event T} (h : l.next e = some l')
    (hl : l.cpu.bus.stopped = true) : l'.cpu.bus.stopped = true := by
  cases step_of_next h with
  | cpuStep hs => exact (cpuStep_stopped_iff hs).mpr (.inl hl)
  | taken => exact hl
  | delayed => exact hl
  | down => exact (congrArg Bus.stopped irqDown_bus).trans hl
  | callInterrupt => exact hl
  | wait => exact hl

instance StaysOn.decidable (l : CpuThread T) (e : Event T) : Decidable (StaysOn l e) := by
  unfold StaysOn
  split <;> infer_instance

/-- A run has called `sc_stop` exactly when one of its steps does so by `StepStops`. -/
theorem not_stopped_iff_run {l l' : CpuThread T} {tr : List (Event T)}
    (hr : Run CpuThread.next (fun _ _ => True) l tr l') (hl : l.cpu.bus.stopped = false) :
    l'.cpu.bus.stopped = false ↔ Run CpuThread.next StaysOn l tr l' := by
  refine hr.last_iff (I := fun l => l.cpu.bus.stopped = false)
    (fun _ _ _ hs hn => stopped_next_iff hn hs) (fun s e t hs hn => ?_) hl
  rw [Bool.not_eq_false] at hs ⊢
  exact stopped_next hn hs

/-- `addi x1, x0, 1`, `fence` and `addi x2, x0, 2` go on. -/
theorem not_stopped_fence : ∃ l, Run CpuThread.next StaysOn
      ⟨.step, start .RV32 [0x00100093, 0x0000000F, 0x00200113]⟩
      [.cpuStep, .cpuProcessIRQ false, .cpuStep, .cpuProcessIRQ false, .cpuStep] l ∧
    l.cpu.bus.stopped = false := by
  have h : (execute CpuThread.next StaysOn
      ⟨.step, start .RV32 [0x00100093, 0x0000000F, 0x00200113]⟩
      [.cpuStep, .cpuProcessIRQ false, .cpuStep, .cpuProcessIRQ false, .cpuStep]).any
      (fun _ => true) = true := by decide
  obtain ⟨l, hr, -⟩ := exists_run_of_execute h
  exact ⟨l, hr, (not_stopped_iff_run (hr.mono fun _ _ _ => trivial) rfl).mpr hr⟩

end RiscvTlm
