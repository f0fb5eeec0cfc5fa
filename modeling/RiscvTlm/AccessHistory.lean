import RiscvTlm.CpuThread
import RiscvTlm.ProgramClasses
import RiscvTlm.TraceOutput

/-!
# The accesses of the CPU thread

Whatever a step does to the bus it does by accesses: the fetch, and the reads and writes of the
memory interface, those of `FENCE` included. `Accesses` says so of a part of a step; it holds of
every instruction, and from it a run of the thread is a run of accesses (`busRun_of_run`).
-/

namespace RiscvTlm

open Prog Transitions

variable {T : CpuType} {α β : Type} {s t : System T} {x : Sim T α} {k : α → Sim T β}

/-- A run of `x` that returns is a run of accesses. -/
def Accesses (x : Sim T α) : Prop :=
  ∀ s a t, x.run s = .ok a t → ∃ events, BusRun s events t

/-- What leaves the targets as they are. -/
theorem busRun_compute (h : t.bus = { s.bus with stopped := t.bus.stopped }) :
    BusRun s [.compute t] t := by
  refine .cons trivial ?_ (.nil t)
  rw [BusEvent.next, ← h]

namespace Accesses

protected theorem pure (a : α) : Accesses (pure a : Sim T α) := by
  intro s _ t h
  cases h
  exact ⟨[], .nil s⟩

protected theorem throw (e : Fault) : Accesses (throw e : Sim T α) := by
  intro s a t h
  cases h

protected theorem get : Accesses (get : Sim T (System T)) := by
  intro s _ t h
  cases h
  exact ⟨[], .nil s⟩

protected theorem modify {f : System T → System T}
    (h : ∀ s, (f s).bus = { s.bus with stopped := (f s).bus.stopped }) :
    Accesses (modify f : Sim T Unit) := by
  intro s _ t ht
  cases ht
  exact ⟨_, busRun_compute (h s)⟩

protected theorem bind (hx : Accesses x) (hk : ∀ a, Accesses (k a)) : Accesses (x >>= k) := by
  intro s b t h
  obtain ⟨a, u, ha, hb⟩ := bind_eq_ok h
  obtain ⟨events, hr⟩ := hx s a u ha
  obtain ⟨events', hr'⟩ := hk a u b t hb
  exact ⟨events ++ events', hr.append hr'⟩

protected theorem ite {c : Prop} [Decidable c] {y : Sim T α} (hx : Accesses x)
    (hy : Accesses y) : Accesses (if c then x else y) := by
  split
  · exact hx
  · exact hy

/-- The code of an access, whatever it returns. -/
theorem of_run {a : Access} (h : ∀ s b t, x.run s = .ok b t → a.run.run s = .ok () t) :
    Accesses x := by
  intro s b t hx
  refine ⟨[.access a], .cons trivial ?_ (.nil t)⟩
  rw [BusEvent.next, h s b t hx]

end Accesses

/-! ## The instructions -/

theorem accesses_tlbReserved (a : BitVec 32) : Accesses (T := T) (AExtension.tlbReserved a) := by
  intro s b t h
  rw [AExtension.tlbReserved, run_get_bind] at h
  split at h
  · cases h
    exact ⟨_, busRun_compute rfl⟩
  · cases h
    exact ⟨[], .nil s⟩

/-- The programs that are runs of accesses, with any change of the state. -/
def accessing : ProgramClass T where
  holds x := Accesses x
  anyPC := True
  value _ := True
  csr _ := True
  write := True
  tlb := True
  stop := True
  value_zero := trivial
  pure := .pure
  throw := .throw
  bind := .bind
  getValue _ := .bind .get fun _ => .pure _
  getCSR _ := .bind .get fun _ => .pure _
  getPC_bind hk := .bind (.bind .get fun _ => .pure _) fun pc => hk pc (.inl trivial)
  setValue _ _ := .modify fun _ => rfl
  setCSR _ _ := .modify fun _ => rfl
  setPC _ := .modify fun _ => rfl
  readDataMem addr size := .of_run (a := .read addr size) fun _ _ _ h => run_bind_ok h
  writeDataMem addr data size _ := .of_run (a := .write addr data size) fun _ _ _ h => h
  tlbReserve _ _ := .modify fun _ => rfl
  tlbReserved a _ := accesses_tlbReserved a
  scStop _ := .modify fun _ => rfl

theorem accesses_raiseException (cause : ExceptionCause) (w : BitVec 32) :
    Accesses (T := T) (raiseException cause w) :=
  holds_raiseException accessing w trivial (fun _ => trivial) (fun _ => trivial)
    (.modify fun _ => rfl)

theorem accesses_execDecoded (w : BitVec 32) (d : Decoded) :
    Accesses (T := T) (execDecoded w d) :=
  accessing.execDecoded w ⟨fun _ _ => trivial, fun _ _ => trivial, fun _ => trivial,
    fun _ => trivial, fun _ => trivial, fun cause _ => accesses_raiseException cause w,
    .inl trivial⟩

/-! ## The thread -/

/-- The copy through the direct pointer is no access to the bus. -/
theorem accesses_fetchDmi : Accesses (T := T) fetchDmi := by
  intro s _ t h
  rw [fetchDmi, run_get_bind] at h
  dsimp only at h
  split at h
  · cases h
    exact ⟨_, busRun_compute rfl⟩
  · cases h

theorem accesses_fetch : Accesses (T := T) fetch := by
  have hbus : Accesses (T := T) fetchBus := .of_run (a := .fetch) fun _ _ _ h => h
  have hnext : Accesses (T := T) (do return (← get).INSTR) := .bind .get fun _ => .pure _
  unfold fetch
  exact .bind .get fun s =>
    .ite (.bind accesses_fetchDmi fun _ => hnext) (.bind hbus fun _ => hnext)

theorem accesses_cpuStep : Accesses (T := T) cpuStep :=
  .bind accesses_fetch fun w => accesses_execDecoded w (decodeCascade T w)

/-- An event of the thread is a run of accesses, and an interrupt is none. -/
theorem busRun_of_step {l l' : CpuThread T} {e : Event T} (h : Step l e l') :
    ∃ events, BusRun l.cpu events l'.cpu := by
  cases h with
  | cpuStep h => exact accesses_cpuStep _ _ _ h
  | taken | delayed | callInterrupt | wait => exact ⟨_, busRun_compute rfl⟩
  | down =>
    refine ⟨_, busRun_compute ?_⟩
    simp only [irqDown_bus]

/-- A run of the thread is a run of accesses. -/
theorem busRun_of_run {P : CpuThread T → Event T → Prop} {l l' : CpuThread T}
    {tr : List (Event T)} (h : Run CpuThread.next P l tr l') :
    ∃ events, BusRun l.cpu events l'.cpu := by
  induction h with
  | nil l => exact ⟨[], .nil l.cpu⟩
  | cons _ hs _ ih =>
    obtain ⟨events, hr⟩ := busRun_of_step (step_of_next hs)
    obtain ⟨events', hr'⟩ := ih
    exact ⟨events ++ events', hr.append hr'⟩

/-- What the terminal has got stays the start of what it gets. -/
theorem terminal_prefix {events : List (BusEvent T)} (h : BusRun s events t) :
    s.terminal <+: t.terminal := by
  induction h with
  | nil s => exact List.prefix_rfl
  | cons _ hs _ ih =>
    rw [terminal_of_next hs] at ih
    exact (List.prefix_append _ _).trans ih

/-- A run of the thread takes nothing back from the terminal. -/
theorem terminal_prefix_of_run {P : CpuThread T → Event T → Prop} {l l' : CpuThread T}
    {tr : List (Event T)} (h : Run CpuThread.next P l tr l') :
    l.cpu.terminal <+: l'.cpu.terminal :=
  (busRun_of_run h).elim fun _ hr => terminal_prefix hr

end RiscvTlm
