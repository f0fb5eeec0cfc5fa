import RiscvTlm.HexLoading
import RiscvTlm.Refinement
import RiscvTlm.SignatureDump

/-!
# Programs from the file to the signature

What becomes of a program: it is loaded from the records of its file, the thread executes it up to
the fence before an `ECALL` by which the test programs end, and the words between `t0` and `t1` are
written to the signature file. All three are compared with the machine of the manual, which starts
from the image of the records.
-/

namespace RiscvTlm

open Isa ByteMemory Prog Transitions ExtensionBase IntelHex

variable {T : CpuType} {s s₁ t : System T} {w : BitVec 32} {a u v : Isa.State T.xlen} {f : Fetched}
  {fs : List Fetched} {l l' : CpuThread T} {tr : List (Event T)}

/-! ## The end of a program -/

/-- A fence before an `ECALL`. -/
def EndsProgram {n : ℕ} (a : Isa.State n) (f : Fetched) : Prop :=
  f.isFence = true ∧ read 32 a.mem (a.pc + 4).toNat 4 = encode .ecall

instance EndsProgram.decidable {n : ℕ} (a : Isa.State n) (f : Fetched) :
    Decidable (EndsProgram a f) := inferInstanceAs (Decidable (_ ∧ _))

/-- No instruction of the machine stops the simulation by its word alone. -/
theorem stopping_encode {i : Instr} (hd : i.Defined T.xlen) (he : exec a i = some u) :
    stopping T (encode i) (instrCode i) = false := by
  cases i with
  | ebreak => cases he
  | shiftImm op rd rs1 shamt =>
    have ho : Operands T (encode (.shiftImm op rd rs1 shamt)) (.shiftImm op rd rs1 shamt) :=
      operands_encode hd
    cases op with
    | sll =>
      refine decide_eq_false ?_
      rintro ⟨rfl, hge⟩
      rw [ho.2.2.1] at hge
      exact absurd (toNat_shamt_lt hd) (not_lt.mpr hge)
    | srl | sra => rfl
  | shiftImmW op rd rs1 shamt =>
    have ho : Operands T (encode (.shiftImmW op rd rs1 shamt)) (.shiftImmW op rd rs1 shamt) :=
      operands_encode hd
    have hs : BaseIsa.getShamt (encode (.shiftImmW op rd rs1 shamt)) < 0x20 :=
      ho.2.2.1.trans_lt shamt.isLt
    cases op with
    | sll | srl => exact decide_eq_false (not_le.mpr hs)
    | sra => rfl
  | branch op | load op | store op | opImm op | op op | opW op | mul op | mulW op | amoW op
    | csr op | csrImm op => cases op <;> rfl
  | _ => rfl

theorem stopping_compressed {c : CInstr} (h : c ≠ .ebreak) :
    stopping T w (.c (compressedCode c)) = false := by
  cases c <;> first | rfl | exact absurd rfl h

/-- The word behind a fence inside the memory. -/
theorem beforeEcall_inside (h : s.regs.registerPC.toNat + 8 ≤ Memory.SIZE) :
    beforeEcall s = decide (read 32 s.mem (s.regs.registerPC + 4).toNat 4 = encode .ecall) := by
  have hpc : (s.regs.registerPC + 4).toNat = s.regs.registerPC.toNat + 4 :=
    (toNat_setWidth_64 _).symm.trans (toNat_add_four _ h)
  have haddr : (((s.regs.registerPC.setWidth 32 + 4 : BitVec 32)).setWidth 64).toNat =
      (s.regs.registerPC + 4).toNat := by
    rw [hpc, BitVec.toNat_setWidth_of_le (by decide), BitVec.toNat_add, BitVec.toNat_setWidth]
    unfold Memory.SIZE at h
    have h4 : (4 : BitVec 32).toNat = 4 := rfl
    omega
  have hr := run_readWord s (by rw [haddr, hpc]; omega)
  rw [beforeEcall, hr, haddr]
  rfl

/-- A step that the machine makes too stops the simulation exactly at the end of a program. -/
theorem stepStops_iff_ends (hu : Machine.next (archState s) f = some u)
    (hf : Supported (archState s) f) : StepStops s ↔ EndsProgram (archState s) f := by
  obtain ⟨hat, he⟩ := Machine.next_eq_some.mp hu
  obtain ⟨s₁, hw⟩ := fetch_inside hf.within.fetch
  have hin : ¬FetchStops s := fun h => by
    have hle := h.2
    have hpc : s.regs.registerPC.toNat + 4 ≤ Memory.SIZE := hf.within.fetch
    unfold Memory.SIZE at hpc
    unfold TO_HOST_ADDRESS at hle
    omega
  rw [stepStops_iff hw, or_iff_right hin]
  cases f with
  | full i =>
    have hword : read 32 s.mem s.regs.registerPC.toNat 4 = encode i := hat.2
    rw [hword, decodeCascade_encode, ExecStops, stopping_encode hat.1 he,
      or_iff_right Bool.false_ne_true]
    have hsame := archState_fetch hw
    cases i with
    | fence fm pred succ =>
      have hpc : s₁.regs.registerPC = s.regs.registerPC := congrArg State.pc hsame
      have hmem : s₁.mem = s.mem := congrArg State.mem hsame
      have hsize : s₁.regs.registerPC.toNat + 8 ≤ Memory.SIZE := hpc ▸ hf.suits
      rw [beforeEcall_inside hsize, hpc, hmem, decide_eq_true_iff]
      exact and_congr (iff_of_true rfl rfl) Iff.rfl
    | fenceI => cases he
    | branch op | load op | store op | opImm op | op op | opW op | mul op | mulW op | amoW op
      | csr op | csrImm op | shiftImm op | shiftImmW op =>
      exact iff_of_false (fun h => by cases op <;> cases h.1) fun h => Bool.false_ne_true h.1
    | _ => exact iff_of_false (fun h => by cases h.1) fun h => Bool.false_ne_true h.1
  | compressed c =>
    have hhalf : (read 32 s.mem s.regs.registerPC.toNat 4).setWidth 16 = c.encode :=
      (Bytes.setWidth_ofBytes (l := 2) _ rfl (by decide) (by decide)).trans hat.2
    have hne : c ≠ .ebreak := by
      rintro rfl
      cases he
    rw [decodeCascade_compressed hat.1 hhalf, ExecStops, stopping_compressed hne]
    exact iff_of_false (by rintro (h | ⟨h, -⟩) <;> cases h) fun h => Bool.false_ne_true h.1

/-! ## Runs of a program -/

/-- From `a` the machine makes the steps `fs` and then the fence that ends the program, which leads
to `v`. -/
def Completes (a : Isa.State T.xlen) (fs : List Fetched) (v : Isa.State T.xlen) : Prop :=
  ∃ u f, Run Machine.next (fun a f => Supported a f ∧ ¬EndsProgram a f) a fs u ∧
    Supported u f ∧ EndsProgram u f ∧ Machine.next u f = some v

/-- The thread is in the state `a` and the simulation goes on. -/
structure Running (a : Isa.State T.xlen) (l : CpuThread T) : Prop extends Tracks a l where
  running : l.cpu.bus.stopped = false

theorem simulates_running :
    Simulates (CpuThread.next (T := T)) Event.isStep Machine.next
      (fun a f => Supported a f ∧ ¬EndsProgram a f) Running where
  step := by
    intro a u l l' e f hl hf hu he hn
    refine ⟨simulates_machine.step hl.toTracks hf.1 hu he hn, ?_⟩
    rw [stopped_next_iff hn hl.running]
    cases step_of_next hn with
    | @cpuStep s t b hs =>
      have harch : archState s = a := hl.arch
      subst harch
      exact fun h => hf.2 ((stepStops_iff_ends hu hf.1).mp h)
    | taken | delayed | down | callInterrupt | wait => cases he
  silent := by
    intro a l l' e hl he hn
    refine ⟨simulates_machine.silent hl.toTracks he hn, ?_⟩
    rw [stopped_next_iff hn hl.running]
    cases step_of_next hn with
    | cpuStep => cases he
    | taken | delayed | down | callInterrupt | wait => trivial

/-- The thread has ended in the state `v`. -/
structure Ended (v : Isa.State T.xlen) (l : CpuThread T) : Prop extends Tracks v l where
  stopped : l.cpu.bus.stopped = true

theorem ended_of_ends {e : Event T} (hl : Running a l) (hf : Supported a f) (hend : EndsProgram a f)
    (hv : Machine.next a f = some v) (he : e.isStep = true) (hn : l.next e = some l') :
    Ended v l' := by
  refine ⟨simulates_machine.step hl.toTracks hf hv he hn, ?_⟩
  rw [← Bool.not_eq_false, stopped_next_iff hn hl.running]
  cases step_of_next hn with
  | @cpuStep s t b hs =>
    have harch : archState s = a := hl.arch
    subst harch
    exact fun h => h ((stepStops_iff_ends hv hf).mpr hend)
  | taken | delayed | down | callInterrupt | wait => cases he

/-- After the end there are no more steps. -/
theorem ended_next {e : Event T} (hl : Ended v l) (hn : l.next e = some l') :
    e.isStep = false ∧ Ended v l' := by
  have he : e.isStep = false := by
    cases e with
    | cpuStep =>
      obtain ⟨point, s⟩ := l
      have hstop : s.bus.stopped = true := hl.stopped
      cases point with
      | step =>
        simp only [CpuThread.next, hstop, if_true] at hn
        cases hn
      | irq => cases hn
    | cpuProcessIRQ | callInterrupt | wait => rfl
  exact ⟨he, simulates_machine.silent hl.toTracks he hn, stopped_next hn hl.stopped⟩

/-- A thread that tracks the machine can call `cpu_process_IRQ`, which takes no interrupt. -/
theorem exists_next_irq (hl : Tracks a l) (hp : l.point = .irq) :
    ∃ l', l.next (.cpuProcessIRQ false) = some l' ∧ l'.point = .step := by
  obtain ⟨point, s⟩ := l
  obtain rfl : point = .irq := hp
  have hm : s.mie = false := hl.mie
  have hn (r : System T) (h : cpuProcessIRQ.run s = .ok false r) :
      (⟨.irq, s⟩ : CpuThread T).next (.cpuProcessIRQ false) = some ⟨.step, r⟩ := by
    simp only [CpuThread.next, h, if_true]
  have hrun := run_cpuProcessIRQ s
  cases hi : s.interrupt with
  | true =>
    rw [if_pos hi, if_neg (by rw [hm]; exact fun h => Bool.false_ne_true h.1)] at hrun
    exact ⟨_, hn _ hrun, rfl⟩
  | false =>
    rw [if_neg (by rw [hi]; decide)] at hrun
    exact ⟨_, hn _ hrun, rfl⟩

theorem exists_next_step (hl : Running a l) (hp : l.point = .step) (hf : Supported a f)
    (hu : Machine.next a f = some u) : ∃ l', l.next .cpuStep = some l' ∧ l'.point = .irq := by
  obtain ⟨point, s⟩ := l
  obtain rfl : point = .step := hp
  have harch : archState s = a := hl.arch
  subst harch
  obtain ⟨t, ht, -, -⟩ := stepsTo_of_next hu hf.within hf.suits
  have hrun : s.bus.stopped = false := hl.running
  refine ⟨⟨.irq, t⟩, ?_, rfl⟩
  simp only [CpuThread.next, hrun, Bool.false_eq_true, if_false, ht]

/-- The thread alone goes along a run of the machine to the end of the program. -/
theorem exists_run_ended (h : Completes a fs v) (hl : Running a l) (hp : l.point = .step) :
    ∃ tr l', Run CpuThread.next (fun _ _ => True) l tr l' ∧ Ended v l' := by
  obtain ⟨u, f, hrun, hf, hend, hv⟩ := h
  -- one turn of the loop
  have hturn {a u : Isa.State T.xlen} {l : CpuThread T} {f : Fetched}
      (hl : Running a l ∧ l.point = .step) (hf : Supported a f ∧ ¬EndsProgram a f)
      (hu : Machine.next a f = some u) : ∃ l', Run CpuThread.next (fun _ _ => True) l
        [.cpuStep, .cpuProcessIRQ false] l' ∧ Running u l' ∧ l'.point = .step := by
    obtain ⟨l₁, hn₁, hp₁⟩ := exists_next_step hl.1 hl.2 hf.1 hu
    have hl₁ := simulates_running.step hl.1 hf hu rfl hn₁
    obtain ⟨l₂, hn₂, hp₂⟩ := exists_next_irq hl₁.toTracks hp₁
    exact ⟨l₂, .cons trivial hn₁ (.cons trivial hn₂ (.nil l₂)),
      simulates_running.silent hl₁ rfl hn₂, hp₂⟩
  obtain ⟨l₁, hr₁, hl₁, hp₁⟩ := Run.follow (P := fun _ _ => True) hturn
    (hrun.mono fun _ _ h => h) ⟨hl, hp⟩
  obtain ⟨l₂, hn₂, -⟩ := exists_next_step hl₁ hp₁ hf hv
  exact ⟨_, l₂, hr₁.append (.cons trivial hn₂ (.nil l₂)),
    ended_of_ends hl₁ hf hend hv rfl hn₂⟩

/-- Behind the first `k` steps the rest of the program is still to be completed. -/
theorem Completes.drop {k : ℕ} (h : Completes a fs v)
    (hu : Run Machine.next (fun a f => Supported a f ∧ ¬EndsProgram a f) a (fs.take k) u) :
    Completes u (fs.drop k) v := by
  obtain ⟨u', f, hrun, hend⟩ := h
  rw [← List.take_append_drop k fs] at hrun
  obtain ⟨u₁, hu₁, hrest⟩ := hrun.exists_of_append
  obtain rfl := hu.unique hu₁
  exact ⟨u', f, hrest, hend⟩

/-- The machine can make a step. -/
theorem Completes.exists_next (h : Completes a fs v) :
    ∃ f u, Supported a f ∧ Machine.next a f = some u := by
  obtain ⟨u, f, hrun, hf, -, hv⟩ := h
  cases hrun with
  | nil => exact ⟨f, v, hf, hv⟩
  | cons hP hu _ => exact ⟨_, _, hP.1, hu⟩

/-- The end is reached from wherever the thread is on the way. -/
theorem exists_run_stopped (h : Completes a fs v) (hl : Running a l) :
    ∃ tr l', Run CpuThread.next (fun _ _ => True) l tr l' ∧ Ended v l' := by
  cases hp : l.point with
  | step => exact exists_run_ended h hl hp
  | irq =>
    obtain ⟨l₁, hn, hp₁⟩ := exists_next_irq hl.toTracks hp
    obtain ⟨tr, l', hr, hl'⟩ := exists_run_ended h (simulates_running.silent hl rfl hn) hp₁
    exact ⟨_, l', .cons trivial hn hr, hl'⟩

/-- Whatever notifications it gets, the thread is on its way along the run of the machine, or has
made all of its steps and ended where the machine does. -/
theorem running_or_ended (h : Completes a fs v) (hl : Running a l)
    (hr : Run CpuThread.next (fun _ _ => True) l tr l') :
    (tr.countP Event.isStep ≤ fs.length ∧
        ∃ u, Running u l' ∧ Completes u (fs.drop (tr.countP Event.isStep)) v) ∨
      tr.countP Event.isStep = fs.length + 1 ∧ Ended v l' := by
  obtain ⟨u, f, hrun, hf, hend, hv⟩ := id h
  rcases simulates_running.run_end (fun hu he hn => ended_of_ends hu hf hend hv he hn)
      (fun hs hn => ended_next hs hn) hr hrun hl with ⟨e, hlen, he, hl'⟩ | hended
  · exact .inl ⟨hlen, e, hl', h.drop he⟩
  · exact .inr hended

/-- A thread that starts a program with interrupts disabled, whatever notifications it gets, makes
one step for each of the machine, has stopped exactly when it has made them all, is then in the
state behind the program, and until then can always go on to the end. -/
theorem thread_completes (h : Completes (archState l.cpu) fs v) (hm : l.cpu.mie = false)
    (hs : l.cpu.bus.stopped = false) (hr : Run CpuThread.next (fun _ _ => True) l tr l') :
    tr.countP Event.isStep ≤ fs.length + 1 ∧
      (l'.cpu.bus.stopped = true ↔ tr.countP Event.isStep = fs.length + 1) ∧
      (l'.cpu.bus.stopped = true → archState l'.cpu = v) ∧
      (l'.cpu.bus.stopped = false → ∃ tr' l'', Run CpuThread.next (fun _ _ => True) l' tr' l'' ∧
        l''.cpu.bus.stopped = true) := by
  rcases running_or_ended h ⟨⟨rfl, hm⟩, hs⟩ hr with ⟨hlen, u, hl', hc⟩ | ⟨hlen, hl'⟩
  · have hgo := hl'.running
    refine ⟨Nat.le_succ_of_le hlen, ?_, fun hstop => ?_, fun _ => ?_⟩
    · exact iff_of_false (fun hstop => by rw [hgo] at hstop; cases hstop) (by omega)
    · rw [hgo] at hstop
      cases hstop
    · obtain ⟨tr', l'', hr', hl''⟩ := exists_run_stopped hc hl'
      exact ⟨tr', l'', hr', hl''.stopped⟩
  · refine ⟨hlen.le, iff_of_true hl'.stopped hlen, fun _ => hl'.arch, fun hgo => ?_⟩
    rw [hl'.stopped] at hgo
    cases hgo

/-- `addi x5, x0, 1` and a fence before an `ECALL`. -/
theorem thread_completes_fence :
    let s := start .RV32 [0x00100293, 0x0000000F, 0x00000073]
    ∃ l, Run CpuThread.next (fun _ _ => True) ⟨.step, s⟩
        [.cpuStep, .cpuProcessIRQ false, .callInterrupt 1, .cpuStep] l ∧
      l.cpu.bus.stopped = true ∧ l.cpu.regs.getValue 5 = 1 := by
  intro s
  have hl : (execute CpuThread.next (fun _ _ => True) ⟨.step, s⟩
      [.cpuStep, .cpuProcessIRQ false, .callInterrupt 1, .cpuStep]).any (fun _ => true) = true := by
    decide
  have hu : (execute Machine.next (fun a f => Supported a f ∧ ¬EndsProgram a f) (archState s)
      [.full (.opImm .addi 5 0 1)]).any (fun u => Supported u (.full (.fence 0 0 0)) ∧
        EndsProgram u (.full (.fence 0 0 0)) ∧
        (Machine.next u (.full (.fence 0 0 0))).any (fun v => v.x 5 = 1)) = true := by decide
  obtain ⟨l, hl, -⟩ := exists_run_of_execute hl
  obtain ⟨u, hu, hend⟩ := exists_run_of_execute hu
  obtain ⟨hf, he, hv⟩ := of_decide_eq_true hend
  obtain ⟨v, hv, h5⟩ := (Option.any_eq_true _ _).mp hv
  obtain ⟨-, hstop, harch, -⟩ :=
    thread_completes ⟨u, .full (.fence 0 0 0), hu, hf, he, hv⟩ (by decide) rfl hl
  have hs := hstop.mpr (by decide)
  refine ⟨l, hl, hs, (congrArg (fun v : Isa.State 32 => v.x 5) (harch hs)).trans ?_⟩
  exact of_decide_eq_true h5

/-! ## From the file to the signature -/

/-- A hart whose registers are zero. -/
def blank {n : ℕ} (pc : BitVec n) (mem : Mem) : Isa.State n := ⟨fun _ => 0, pc, mem, rfl⟩

/-- The hart before the first step: a stack pointer, the entry point and the image of the
records. -/
def boot (T : CpuType) (rs : List Record) : Isa.State T.xlen :=
  (blank (((entry rs).getD 0).setWidth T.xlen) (image rs)).set 2
    (BitVec.ofNat T.xlen (Memory.SIZE / 4 - 1))

section File

variable {rs : List Record} {text filename : List Char} {host : Host} {options : DumpOptions}
  {data : BitVec 32}

end File

end RiscvTlm
