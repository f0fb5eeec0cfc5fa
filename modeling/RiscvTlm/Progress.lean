import RiscvTlm.Faults
import RiscvTlm.SocRuns

/-!
# Progress of the system

The system does not get stuck by itself. It goes on, turn after turn, unless the simulation has
stopped or the step that is due has a fault; and a fetch is refused in the first turn only, since
the status of its transaction is not reset behind one that was served.
-/

namespace RiscvTlm

open Prog Transitions

variable {T : CpuType} {s t : System T}

/-! ## The status of the fetch -/

/-- A fetch has been served. -/
def FetchServed (s : System T) : Prop := s.dmiPtrValid = true ∨ s.transResponseStatus = .ok

/-- The exception of a fetch that no target answers. -/
def fetchRefused : Fault := .scReportError "CPU base" "Read memory"

theorem fetchServed_fetch {w : BitVec 32} (h : fetch.run s = .ok w t) : FetchServed t := by
  obtain ⟨hv, -, rfl⟩ | ⟨-, r, -, hst, rfl⟩ := fetch_cases h
  · exact .inl hv
  · split
    · exact .inr hst
    · exact .inr hst

/-- An instruction does not touch what the fetch keeps. -/
theorem fetchServed_cpuStep {b : Bool} (h : cpuStep.run s = .ok b t) : FetchServed t := by
  obtain ⟨w, s₁, hf, hx⟩ := bind_eq_ok h
  have hk : Keeps (fun s : System T => (s.dmiPtrValid, s.transResponseStatus))
      (execDecoded w (decodeCascade T w)) := by
    refine keeps_execDecoded ⟨fun _ _ _ => rfl, fun _ _ => rfl, fun _ _ => rfl, fun _ _ => rfl⟩
      (fun _ _ _ _ => rfl) (.inr fun cause s => ?_)
    cases cause <;> rfl
  obtain ⟨hv, hst⟩ := Prod.mk.inj (hk.eq_ok hx)
  have hs := fetchServed_fetch hf
  rw [FetchServed, ← hv, ← hst] at hs
  exact hs

theorem fault_ne_fetchRefused (x : Transfer) : x.fault ≠ some fetchRefused := by
  have hne (msg : String) : Fault.scReportError "Memory" msg ≠ fetchRefused := by
    intro h
    exact absurd (Fault.scReportError.inj h).1 (by decide)
  have hbus {a : BitVec 64} {size : ℕ} {e : Fault} (he : e ≠ fetchRefused) :
      busFault a size e ≠ some fetchRefused := by
    unfold busFault
    split_ifs
    · exact fun h => he (Option.some_inj.mp h)
    · exact fun h => by cases h
    · exact fun h => by cases h
  cases x with
  | load addr size => exact hbus (hne _)
  | store addr size => exact hbus (hne _)

theorem execFault_ne_fetchRefused (w : BitVec 32) (s : System T) (d : Decoded) :
    execFault w s d ≠ some fetchRefused := by
  have hfirst (l : List Transfer) : firstFault l ≠ some fetchRefused := by
    induction l with
    | nil => exact fun h => by cases h
    | cons x l ih =>
      intro h
      rcases Option.or_eq_some_iff.mp h with h | ⟨-, h⟩
      · exact fault_ne_fetchRefused x h
      · exact ih h
  unfold execFault
  split
  · exact fun h => by cases h
  · exact hfirst _

/-- Behind a fetch that was served none is refused. -/
theorem stepFault_ne_fetchRefused (hs : FetchServed s) : stepFault s ≠ some fetchRefused := by
  have hfetch : fetchFault s ≠ some fetchRefused := by
    unfold fetchFault busFault
    dsimp only
    split_ifs with hv hpc hhost hle
    · exact fun h => by cases h
    · exact fun h => by cases h
    · exact fun h => by cases h
    · have hst := hs.resolve_left hv
      have he : (fetchTrans s).isResponseError = false := by
        unfold Payload.isResponseError
        rw [show (fetchTrans s).responseStatus = .ok from hst]
        rfl
      exact fun _ => hhost ⟨hle, he⟩
    · exact fun h => by cases h
    · exact fun h => by cases h
  intro h
  rcases Option.or_eq_some_iff.mp h with h | ⟨-, h⟩
  · exact hfetch h
  · split at h
    · exact execFault_ne_fetchRefused _ _ _ h
    · cases h

/-! ## Turns -/

/-- `cpu_process_IRQ` returns. -/
theorem exists_irq_return (s : System T) :
    ∃ taken t, (⟨.irq, s⟩ : CpuThread T).next (.cpuProcessIRQ taken) = some ⟨.step, t⟩ := by
  have hn {r : Bool} {t : System T} (h : cpuProcessIRQ.run s = .ok r t) :
      (⟨.irq, s⟩ : CpuThread T).next (.cpuProcessIRQ r) = some ⟨.step, t⟩ := by
    simp only [CpuThread.next, h, if_true]
  have hrun := run_cpuProcessIRQ s
  split_ifs at hrun
  · exact ⟨_, _, hn hrun⟩
  · exact ⟨_, _, hn hrun⟩
  · exact ⟨_, _, hn hrun⟩

namespace Soc

variable {s s' : Soc T} {e : SocEvent T} {tr : List (SocEvent T)} {cpu : System T} {k n : ℕ}

/-- A turn that is due is made, unless its step has a fault. -/
theorem exists_turn_iff : (∃ taken s', s.next (.turn taken) = some s') ↔
    s.now = s.wake ∧ s.cpu.bus.stopped = false ∧ stepFault s.cpu = none := by
  rw [← failure_cpuStep, failure_eq_none]
  constructor
  · rintro ⟨taken, s', hn⟩
    cases step_of_next hn with
    | turn hnow hs hi =>
      obtain ⟨⟨b, hb⟩, -⟩ := turn_frame hs hi
      refine ⟨hnow, Bool.eq_false_iff.mpr fun hstop => ?_, b, _, hb⟩
      have hnone : s.thread.next .cpuStep = none := if_pos hstop
      cases hnone.symm.trans hs
  · rintro ⟨hnow, hstop, b, t, hb⟩
    have hs : s.thread.next .cpuStep = some ⟨.irq, t⟩ := by
      simp only [thread, CpuThread.next, hstop, Bool.false_eq_true, if_false, hb]
    obtain ⟨taken, u, hu⟩ := exists_irq_return t
    refine ⟨taken, { s with cpu := u, wake := s.wake + DEFAULT_TIME }, (if_pos hnow).trans ?_⟩
    rw [hs, Option.bind_some, hu]
    rfl

/-- Nothing is possible any more exactly when the simulation has stopped, or when the step that is
due has a fault. -/
theorem stuck_iff (s : Soc T) : (∀ e, s.next e = none) ↔ s.woken = false ∧
    (s.cpu.bus.stopped = true ∨ s.now = s.wake ∧ ∃ f, stepFault s.cpu = some f) := by
  constructor
  · intro h
    have hw : s.woken = false := by
      by_contra hw
      have hn : s.next (.signal 0) = some _ := if_pos (Bool.eq_true_of_not_eq_false hw)
      cases (h (.signal 0)).symm.trans hn
    refine ⟨hw, ?_⟩
    cases hstop : s.cpu.bus.stopped with
    | true => exact .inl rfl
    | false =>
      right
      have hnow : s.now = s.wake := by
        by_contra hnow
        have hn : s.next (.advance s.cpu.host.uninit) = some _ := if_pos ⟨hnow, hw, hstop⟩
        cases (h _).symm.trans hn
      refine ⟨hnow, ?_⟩
      cases hf : stepFault s.cpu with
      | some f => exact ⟨f, rfl⟩
      | none =>
        obtain ⟨taken, s', hn⟩ := exists_turn_iff.mpr ⟨hnow, hstop, hf⟩
        cases (h _).symm.trans hn
  · rintro ⟨hw, hend⟩ e
    cases hn : s.next e with
    | none => rfl
    | some s' =>
      exfalso
      cases step_of_next hn with
      | @turn taken =>
        obtain ⟨-, hstop, hf⟩ := exists_turn_iff.mp ⟨taken, _, hn⟩
        rcases hend with h | ⟨-, f, h⟩
        · cases hstop.symm.trans h
        · cases hf.symm.trans h
      | signal cause h => cases hw.symm.trans h
      | advance uninit hnow _ hstop =>
        rcases hend with h | ⟨h, -⟩
        · cases hstop.symm.trans h
        · exact hnow h

/-! ## Runs -/

theorem fetchServed_of_next (hn : s.next e = some s')
    (h : FetchServed s.cpu ∨ e.isTurn = true) : FetchServed s'.cpu := by
  cases step_of_next hn with
  | @turn taken l l' hnow hs hi =>
    obtain ⟨⟨b, hb⟩, -⟩ := turn_frame hs hi
    have hl : FetchServed l.cpu := fetchServed_cpuStep hb
    cases RiscvTlm.step_of_next hi with
    | taken => exact hl
    | delayed => exact hl
    | @down t =>
      show FetchServed (irqDown t)
      unfold irqDown
      split
      · exact hl
      · exact hl
  | signal => exact h.resolve_right Bool.false_ne_true
  | advance => exact h.resolve_right Bool.false_ne_true

/-- Behind the first turn a fetch has been served. -/
theorem fetchServed_of_run (hr : Run next (fun _ _ => True) s tr s')
    (h : FetchServed s.cpu ∨ 0 < tr.countP SocEvent.isTurn) : FetchServed s'.cpu := by
  induction hr with
  | nil s => exact h.resolve_right (Nat.lt_irrefl 0)
  | @cons s u s' e tr _ hn _ ih =>
    rw [countP_isTurn_cons] at h
    cases he : e.isTurn with
    | true => exact ih (.inl (fetchServed_of_next hn (.inr he)))
    | false =>
      rw [he, Bool.toNat_false, Nat.zero_add] at h
      exact ih (h.imp_left fun hs => fetchServed_of_next hn (.inl hs))

/-- There is time for `n` more turns behind `k` ones from the time `t` on. -/
def HasTime (n : ℕ) (s : Soc T) : Prop := ∃ t k, Timed t k s ∧ t + 10 * (k + n) < 2 ^ 64

theorem exists_turns (hs : HasTime n s) : ∃ tr s', Run next (fun _ _ => True) s tr s' ∧
    (tr.countP SocEvent.isTurn = n ∨ ∀ e, s'.next e = none) := by
  have hroom (n : ℕ) (e : SocEvent T) (hn : 0 < n) : e.isTurn.toNat ≤ n :=
    (Bool.toNat_le _).trans hn
  refine Run.exists_countP_eq (I := HasTime) pendingEvents 5 ?_ ?_ n hs
  · rintro n s e s' hpos ⟨t, k, hs, hlt⟩ hn
    have hle := hroom n e hpos
    exact ⟨t, k + e.isTurn.toNat, timed_of_next hn hs (by omega), by omega⟩
  · rintro n s e s' hpos ⟨t, k, hs, hlt⟩ hn
    exact pendingEvents_of_next hn hs.now_le

/-- A run has at most five events for each turn. It is at its end exactly when the simulation has
stopped or the step that is due has a fault, which behind the first turn is not that of a refused
fetch. Up to such an end it goes on to any number of turns for which there is time. -/
theorem progress (hr : Run next (fun _ _ => True) (start cpu) tr s)
    (hstop : cpu.bus.stopped = false)
    (hlt : cpu.host.timeStamp.toNat + 10 * (tr.countP SocEvent.isTurn + n) < 2 ^ 64) :
    tr.length ≤ 5 * tr.countP SocEvent.isTurn + 2 ∧
      ((∀ e, s.next e = none) ↔ s.woken = false ∧ (s.cpu.bus.stopped = true ∨
        s.now = s.wake ∧ ∃ f, stepFault s.cpu = some f ∧
          (0 < tr.countP SocEvent.isTurn → f ≠ fetchRefused))) ∧
      ∃ tr' s', Run next (fun _ _ => True) s tr' s' ∧
        (tr'.countP SocEvent.isTurn = n ∨ ∀ e, s'.next e = none) := by
  have hlt' : cpu.host.timeStamp.toNat + 10 * (0 + tr.countP SocEvent.isTurn) < 2 ^ 64 := by omega
  have htimed := timed_of_run hr (timed_start hstop) hlt'
  rw [Nat.zero_add] at htimed
  refine ⟨?_, ?_, exists_turns ⟨_, _, htimed, hlt⟩⟩
  · have hlen := length_of_run hr (timed_start hstop) hlt'
    have hpending := pendingEvents_start cpu
    omega
  · rw [stuck_iff]
    refine and_congr_right fun _ => or_congr_right (and_congr_right fun _ => ?_)
    refine exists_congr fun f => ?_
    refine ⟨fun hf => ⟨hf, fun hpos he => ?_⟩, fun hf => hf.1⟩
    exact stepFault_ne_fetchRefused (fetchServed_of_run hr (.inr hpos)) (he ▸ hf)

/-- `lui x1, 0x1000` and `lw x2, -2(x1)`, across the end of the memory. -/
theorem progress_lw : ∃ s, Run next (fun _ _ => True)
      (start (RiscvTlm.start .RV32 [0x010000B7, 0xFFE0A103])) [.turn false, .advance fun _ => 0] s ∧
    ∀ e, s.next e = none := by
  have h : (execute next (fun _ _ => True) (start (RiscvTlm.start .RV32 [0x010000B7, 0xFFE0A103]))
      [.turn false, .advance fun _ => 0]).any (fun s => s.woken = false ∧ s.now = s.wake ∧
        stepFault s.cpu = some .undefinedBehaviour) = true := by decide
  obtain ⟨s, hr, h⟩ := exists_run_of_execute h
  obtain ⟨hw, hnow, hf⟩ := of_decide_eq_true h
  obtain ⟨-, hend, -⟩ := progress (n := 0) hr rfl (by decide)
  exact ⟨s, hr, hend.mpr ⟨hw, .inr ⟨hnow, _, hf, fun _ h => by cases h⟩⟩⟩

end Soc

end RiscvTlm
