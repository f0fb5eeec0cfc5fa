import RiscvTlm.CsrStorage
import RiscvTlm.Refinement

/-!
# Interrupted programs

A thread with interrupts enabled, whose handler returns with `MRET`. The code does not mask
interrupts in a handler, so they have to be far enough apart for it to return. Then a call of the
handler is atomic: the thread does what the machine does that makes it in one step, between two
instructions of the program. A handler that leaves registers and memory as they were goes unnoticed.
-/

namespace RiscvTlm

open Isa ByteMemory Prog Transitions

variable {T : CpuType}

/-! ## The machine with atomic calls -/

/-- An instruction of the program, or a call of the handler with the instructions before `MRET`. -/
inductive Atom
  | step (f : Fetched)
  | call (hs : List Fetched)

namespace Atom

def isStep : Atom → Bool
  | .step _ => true
  | .call _ => false

def isCall : Atom → Bool
  | .step _ => false
  | .call _ => true

/-- How many steps of the CPU it takes. -/
def steps : Atom → ℕ
  | .step _ => 1
  | .call hs => hs.length + 1

theorem sum_steps_le {n : ℕ} {br : List Atom} (h : ∀ b ∈ br, b.steps ≤ n) :
    (br.map steps).sum ≤ br.countP isStep + n * br.countP isCall := by
  induction br with
  | nil => exact Nat.zero_le _
  | cons b br ih =>
    obtain ⟨hb, hbr⟩ := List.forall_mem_cons.mp h
    have hrest := ih hbr
    rw [List.map_cons, List.sum_cons]
    cases b with
    | step f =>
      rw [List.countP_cons_of_pos rfl, List.countP_cons_of_neg Bool.false_ne_true]
      show 1 + _ ≤ _
      omega
    | call hs =>
      rw [List.countP_cons_of_neg Bool.false_ne_true, List.countP_cons_of_pos rfl, Nat.mul_succ]
      omega

theorem countP_isStep_le (br : List Atom) : br.countP isStep ≤ (br.map steps).sum := by
  induction br with
  | nil => exact Nat.zero_le _
  | cons b br ih =>
    rw [List.map_cons, List.sum_cons]
    cases b with
    | step f =>
      rw [List.countP_cons_of_pos rfl]
      show _ ≤ 1 + _
      omega
    | call hs =>
      rw [List.countP_cons_of_neg Bool.false_ne_true]
      exact Nat.le_add_left_of_le ih

/-- `MRET` stands at the PC, inside the memory. -/
def AtReturn {n : ℕ} (a : Isa.State n) : Prop :=
  a.pc.toNat + 4 ≤ Memory.SIZE ∧ read 32 a.mem a.pc.toNat 4 = encode .mret

instance AtReturn.decidable {n : ℕ} (a : Isa.State n) : Decidable (AtReturn a) :=
  inferInstanceAs (Decidable (_ ∧ _))

/-- A call starts at `vector` and comes back to the instruction before which it was made. -/
def next (vector : BitVec T.xlen) (a : Isa.State T.xlen) : Atom → Option (Isa.State T.xlen)
  | .step f => if Supported a f then Machine.next a f else none
  | .call hs => (execute Machine.next Supported (a.setPC vector) hs).bind fun h =>
    if AtReturn h then some (h.setPC a.pc) else none

end Atom

/-- While the number of steps left is positive, the program can make one, and the handler returns
after at most `n` steps and an `MRET`. -/
structure Preemptible (vector : BitVec T.xlen) (n : ℕ) (I : ℕ → Isa.State T.xlen → Prop) :
    Prop where
  step : ∀ {k a}, I (k + 1) a → ∃ f u, Atom.next vector a (.step f) = some u ∧ I k u
  call : ∀ {k a}, I (k + 1) a → ∃ hs u, hs.length ≤ n ∧
    Atom.next vector a (.call hs) = some u ∧ I (k + 1) u

/-! ## Events -/

/-- A call of `cpu_process_IRQ` that takes an interrupt. -/
def Event.isTaken : Event T → Bool
  | .cpuProcessIRQ taken => taken
  | _ => false

/-- How many steps there are before the next interrupt. -/
def stepsBefore (tr : List (Event T)) : ℕ :=
  (tr.takeWhile fun e => !e.isTaken).countP Event.isStep

theorem stepsBefore_of_silent {e : Event T} {tr : List (Event T)} (hs : e.isStep = false)
    (ht : e.isTaken = false) : stepsBefore (e :: tr) = stepsBefore tr := by
  rw [stepsBefore, List.takeWhile_cons_of_pos (by rw [ht]; rfl),
    List.countP_cons_of_neg (by rw [hs]; exact Bool.false_ne_true)]
  rfl

theorem stepsBefore_cpuStep {tr : List (Event T)} :
    stepsBefore (Event.cpuStep :: tr) = stepsBefore tr + 1 :=
  List.countP_cons_of_pos rfl

/-- Behind each interrupt there are more than `n` steps before the next one and the end. -/
def Spaced (n : ℕ) : List (Event T) → Prop
  | [] => True
  | e :: tr => (e.isTaken = true → n < stepsBefore tr) ∧ Spaced n tr

instance Spaced.decidable (n : ℕ) : (tr : List (Event T)) → Decidable (Spaced n tr)
  | [] => instDecidableTrue
  | _ :: tr => @instDecidableAnd _ _ inferInstance (Spaced.decidable n tr)

/-! ## Where the thread is -/

/-- The thread is in the program, in a state from which `k` more steps can be made, or `r` steps
before it comes back to such a state `a`. -/
inductive Mode (I : ℕ → Isa.State T.xlen → Prop) (s : System T) (k : ℕ) :
    Isa.State T.xlen → ℕ → Prop
  | program (h : I k (archState s)) : Mode I s k (archState s) 0
  | handler {hs : List Fetched} {h : Isa.State T.xlen} {pc : BitVec T.xlen}
      (hr : Run Machine.next Supported (archState s) hs h) (hm : Atom.AtReturn h)
      (hI : I k (h.setPC pc)) (hpc : pc.toNat < 2 ^ 32)
      (hepc : s.regs.csr Csr.MEPC = pc.setWidth 32) : Mode I s k (h.setPC pc) (hs.length + 1)

section Steps

variable {vec : BitVec 32} {n k r : ℕ} {I : ℕ → Isa.State T.xlen → Prop} {s t : System T}
  {a u : Isa.State T.xlen} {f : Fetched} {hs : List Fetched}

/-- Only the state of the hart and `mepc` matter. -/
theorem Mode.congr (h : Mode I s k a r) (ha : archState t = archState s)
    (hc : t.regs.csr Csr.MEPC = s.regs.csr Csr.MEPC) : Mode I t k a r := by
  cases h with
  | program h =>
    rw [← ha] at h ⊢
    exact .program h
  | handler hr hm hI hpc hepc => exact .handler (ha ▸ hr) hm hI hpc (hc.trans hepc)

theorem Atom.next_step {vector : BitVec T.xlen} :
    Atom.next vector a (.step f) = some u ↔ Supported a f ∧ Machine.next a f = some u :=
  Option.ite_none_right_eq_some

theorem Atom.next_call {vector : BitVec T.xlen} :
    Atom.next vector a (.call hs) = some u ↔
      ∃ v, Run Machine.next Supported (a.setPC vector) hs v ∧ AtReturn v ∧ v.setPC a.pc = u := by
  constructor
  · intro h
    obtain ⟨v, hv, h⟩ := Option.bind_eq_some_iff.mp h
    obtain ⟨hm, h⟩ := Option.ite_none_right_eq_some.mp h
    exact ⟨v, run_of_execute hv, hm, Option.some_inj.mp h⟩
  · rintro ⟨v, hv, hm, rfl⟩
    exact Option.bind_eq_some_iff.mpr ⟨v, execute_of_run hv, if_pos hm⟩

/-- A step that the machine makes too. -/
theorem stepsTo_of_cpuStep {b : Bool} (h : cpuStep.run s = .ok b t) (hf : Supported (archState s) f)
    (hu : Machine.next (archState s) f = some u) : StepsTo s u t := by
  obtain ⟨t', ht⟩ := stepsTo_of_next hu hf.within hf.suits
  cases h.symm.trans ht.run
  exact ht

/-- `MRET` goes back to `mepc` and leaves the registers and the memory as they are. -/
theorem archState_mret {b : Bool} (h : cpuStep.run s = .ok b t) (hm : Atom.AtReturn (archState s)) :
    archState t = (archState s).setPC ((s.regs.csr Csr.MEPC).setWidth T.xlen) ∧
      t.regs.csr Csr.MTVEC = s.regs.csr Csr.MTVEC := by
  obtain ⟨s₁, hf⟩ := fetch_inside hm.1
  have hword : fetch.run s = .ok (encode .mret) s₁ := hm.2 ▸ hf
  have hi : (BaseIsa.execInstruction (encode .mret) .OP_MRET).run s₁ =
      .ok (false, false) (mretState s₁) := run_pcSet (run_execMRET s₁)
  have hrun := run_cpuStep hword
  rw [decodeCascade_encode, instrCode, run_execDecoded_base hi, h] at hrun
  obtain ⟨-, rfl⟩ := EStateM.Result.ok.inj hrun
  have harch := archState_fetch hword
  have hregs : s₁.regs = s.regs := (fetch_frame hword).1
  constructor
  · rw [← harch, ← hregs]
    refine State.ext ?_ ?_ rfl
    · rfl
    · exact Registers.setCSR_registerPC _ _ _
  · have hne : Csr.MTVEC ≠ Csr.MSTATUS := by decide
    rw [← hregs]
    exact Registers.setCSR_csr_ne _ _ _ _ hne

theorem Preemptible.toNat_pc (hI : Preemptible (vec.setWidth T.xlen) n I) (h : I (k + 1) a) :
    a.pc.toNat < 2 ^ 32 := by
  obtain ⟨f, u, hu, -⟩ := hI.step h
  have hle := (Atom.next_step.mp hu).1.within.fetch
  unfold Memory.SIZE at hle
  omega

/-- A step of the program. -/
theorem Mode.cpuStep_program {b : Bool} (hI : Preemptible (vec.setWidth T.xlen) n I)
    (hm : Mode I s (k + 1) a 0) (h : cpuStep.run s = .ok b t) :
    (∃ f u, Atom.next (vec.setWidth T.xlen) a (.step f) = some u ∧ Mode I t k u 0) ∧
      t.regs.csr Csr.MTVEC = s.regs.csr Csr.MTVEC := by
  cases hm with
  | program hs =>
    obtain ⟨f, u, hu, hk⟩ := hI.step hs
    obtain ⟨hf, hn⟩ := Atom.next_step.mp hu
    obtain ⟨-, rfl, hcsr⟩ := stepsTo_of_cpuStep h hf hn
    exact ⟨⟨f, _, hu, .program hk⟩, by rw [hcsr]⟩

/-- A step of the handler, or its return. -/
theorem Mode.cpuStep_handler {b : Bool} (hm : Mode I s k a (r + 1)) (h : cpuStep.run s = .ok b t) :
    Mode I t k a r ∧ t.regs.csr Csr.MTVEC = s.regs.csr Csr.MTVEC := by
  cases hm with
  | @handler hs v pc hr hm hI hpc hepc =>
    cases hr with
    | nil =>
      obtain ⟨harch, hvec⟩ := archState_mret h hm
      have hback : (pc.setWidth 32).setWidth T.xlen = pc := by
        refine BitVec.eq_of_toNat_eq ?_
        rw [BitVec.toNat_setWidth, BitVec.toNat_setWidth, Nat.mod_eq_of_lt hpc,
          Nat.mod_eq_of_lt pc.isLt]
      rw [hepc, hback] at harch
      rw [← harch] at hI ⊢
      exact ⟨.program hI, hvec⟩
    | @cons _ _ _ f hs hf hn hr =>
      obtain ⟨-, rfl, hcsr⟩ := stepsTo_of_cpuStep h hf hn
      exact ⟨.handler hr hm hI hpc (hcsr ▸ hepc), by rw [hcsr]⟩

/-- An interrupt in the program calls the handler. -/
theorem Mode.taken (hI : Preemptible (vec.setWidth T.xlen) n I) (hm : Mode I s (k + 1) a 0)
    (hv : s.regs.csr Csr.MTVEC = vec) :
    ∃ hs u, hs.length ≤ n ∧ Atom.next (vec.setWidth T.xlen) a (.call hs) = some u ∧
      Mode I (irqTaken s) (k + 1) u (hs.length + 1) := by
  cases hm with
  | program h =>
    obtain ⟨hs, u, hlen, hu, hk⟩ := hI.call h
    obtain ⟨v, hr, hret, rfl⟩ := Atom.next_call.mp hu
    have harch : archState (irqTaken s) = (archState s).setPC (vec.setWidth T.xlen) := by
      have hcsr : (irqTaken s).regs.csr Csr.MTVEC = vec := (irqTaken_csr (by decide)).trans hv
      have hpc : (irqTaken s).regs.registerPC = ((irqTaken s).regs.csr Csr.MTVEC).setWidth T.xlen :=
        held_mtvec _ s.host
      rw [hcsr] at hpc
      exact State.ext rfl hpc rfl
    rw [← harch] at hr
    exact ⟨hs, _, hlen, hu, .handler hr hret hk (hI.toNat_pc h) irqTaken_mepc⟩

end Steps

/-! ## Runs -/

section Runs

variable {vec : BitVec 32} {n k r : ℕ} {I : ℕ → Isa.State T.xlen → Prop} {l l' : CpuThread T}
  {a : Isa.State T.xlen} {tr : List (Event T)}

/-- Atoms that lead from `a` to `u`, with a call for each interrupt of the events and a step of the
CPU for each of theirs but the first `r`. -/
def Mirrored (vec : BitVec 32) (n k r : ℕ) (I : ℕ → Isa.State T.xlen → Prop)
    (a u : Isa.State T.xlen) (tr : List (Event T)) : Prop :=
  ∃ br, Run (Atom.next (vec.setWidth T.xlen)) (fun _ b => b.steps ≤ n + 1) a br u ∧
    I (k - br.countP Atom.isStep) u ∧
    br.countP Atom.isCall = tr.countP Event.isTaken ∧
    (br.map Atom.steps).sum + r = tr.countP Event.isStep

namespace Mirrored

variable {e : Event T} {b u : Isa.State T.xlen} {f : Fetched} {hs : List Fetched}

theorem silent (h : Mirrored vec n k r I a u tr) (hs : e.isStep = false) (ht : e.isTaken = false) :
    Mirrored vec n k r I a u (e :: tr) := by
  obtain ⟨br, hbr, hk, hcalls, hsum⟩ := h
  refine ⟨br, hbr, hk, ?_, ?_⟩
  · rw [hcalls, List.countP_cons_of_neg (by rw [ht]; exact Bool.false_ne_true)]
  · rw [hsum, List.countP_cons_of_neg (by rw [hs]; exact Bool.false_ne_true)]

theorem step (h : Mirrored vec n k 0 I b u tr)
    (hb : Atom.next (vec.setWidth T.xlen) a (.step f) = some b) :
    Mirrored vec n (k + 1) 0 I a u (.cpuStep :: tr) := by
  obtain ⟨br, hbr, hk, hcalls, hsum⟩ := h
  refine ⟨.step f :: br, .cons (Nat.le_add_left _ _) hb hbr, ?_, ?_, ?_⟩
  · rw [List.countP_cons_of_pos (by rfl), Nat.succ_sub_succ]
    exact hk
  · rw [List.countP_cons_of_neg Bool.false_ne_true, hcalls,
      List.countP_cons_of_neg Bool.false_ne_true]
  · rw [List.map_cons, List.sum_cons, List.countP_cons_of_pos (by rfl), ← hsum]
    show 1 + _ + 0 = _ + 0 + 1
    omega

/-- A step of the call that is under way. -/
theorem handler (h : Mirrored vec n k r I a u tr) :
    Mirrored vec n k (r + 1) I a u (.cpuStep :: tr) := by
  obtain ⟨br, hbr, hk, hcalls, hsum⟩ := h
  refine ⟨br, hbr, hk, ?_, ?_⟩
  · rw [hcalls, List.countP_cons_of_neg Bool.false_ne_true]
  · rw [List.countP_cons_of_pos (by rfl), ← hsum]
    rfl

/-- The interrupt makes the call, of which all steps are left. -/
theorem call (h : Mirrored vec n k (hs.length + 1) I b u tr) (hlen : hs.length ≤ n)
    (hb : Atom.next (vec.setWidth T.xlen) a (.call hs) = some b) :
    Mirrored vec n k 0 I a u (.cpuProcessIRQ true :: tr) := by
  obtain ⟨br, hbr, hk, hcalls, hsum⟩ := h
  refine ⟨.call hs :: br, .cons (Nat.succ_le_succ hlen) hb hbr, ?_, ?_, ?_⟩
  · rw [List.countP_cons_of_neg Bool.false_ne_true]
    exact hk
  · rw [List.countP_cons_of_pos (by rfl), List.countP_cons_of_pos (by rfl), hcalls]
  · rw [List.map_cons, List.sum_cons, List.countP_cons_of_neg Bool.false_ne_true, ← hsum]
    show hs.length + 1 + _ + 0 = _
    omega

end Mirrored

/-- In every mode the thread is mirrored. The induction is on the run, and the mode says how many
steps of a call are left. -/
theorem mirrored_of_mode (hI : Preemptible (vec.setWidth T.xlen) n I)
    (hr : Run CpuThread.next (fun _ _ => True) l tr l') (hm : Mode I l.cpu k a r)
    (hv : l.cpu.regs.csr Csr.MTVEC = vec) (hret : r ≤ stepsBefore tr) (hsp : Spaced n tr)
    (hlen : tr.countP Event.isStep ≤ k + r) : Mirrored vec n k r I a (archState l'.cpu) tr := by
  induction hr generalizing k a r with
  | nil l =>
    obtain rfl := Nat.le_zero.mp hret
    cases hm with
    | program h => exact ⟨[], .nil _, h, rfl, rfl⟩
  | @cons l m l' e tr _ hn hr ih =>
    have hsp' := hsp.2
    -- what is neither a step nor an interrupt leaves the mode as it is
    have hsilent (harch : archState m.cpu = archState l.cpu)
        (hepc : m.cpu.regs.csr Csr.MEPC = l.cpu.regs.csr Csr.MEPC)
        (hvec : m.cpu.regs.csr Csr.MTVEC = l.cpu.regs.csr Csr.MTVEC)
        (hs : e.isStep = false) (ht : e.isTaken = false) :
        Mirrored vec n k r I a (archState l'.cpu) (e :: tr) := by
      rw [stepsBefore_of_silent hs ht] at hret
      rw [List.countP_cons_of_neg (by rw [hs]; exact Bool.false_ne_true)] at hlen
      exact (ih (hm.congr harch hepc) (hvec.trans hv) hret hsp' hlen).silent hs ht
    cases step_of_next hn with
    | @cpuStep s t b hs =>
      rw [stepsBefore_cpuStep] at hret
      rw [List.countP_cons_of_pos (by rfl)] at hlen
      cases r with
      | zero =>
        obtain ⟨k, rfl⟩ := Nat.exists_eq_succ_of_ne_zero (show k ≠ 0 by omega)
        obtain ⟨⟨f, u, hu, hm'⟩, hvec⟩ := hm.cpuStep_program hI hs
        exact (ih hm' (hvec.trans hv) (Nat.zero_le _) hsp' (by omega)).step hu
      | succ r =>
        obtain ⟨hm', hvec⟩ := hm.cpuStep_handler hs
        exact (ih hm' (hvec.trans hv) (by omega) hsp' (by omega)).handler
    | @taken s hi hmie hp =>
      obtain rfl := Nat.le_zero.mp hret
      have hspaced : n < stepsBefore tr := hsp.1 rfl
      have hle : stepsBefore tr ≤ tr.countP Event.isStep :=
        (List.takeWhile_sublist _).countP_le
      rw [List.countP_cons_of_neg Bool.false_ne_true] at hlen
      obtain ⟨k, rfl⟩ := Nat.exists_eq_succ_of_ne_zero (show k ≠ 0 by omega)
      obtain ⟨hs, u, hhs, hu, hm'⟩ := hm.taken hI hv
      have hvec : (irqTaken s).regs.csr Csr.MTVEC = vec := (irqTaken_csr (by decide)).trans hv
      exact (ih hm' hvec (by omega) hsp' (by omega)).call hhs hu
    | delayed => exact hsilent rfl rfl rfl rfl rfl
    | @down s =>
      exact hsilent (archState_irqDown s) (irqDown_csr (by decide)) (irqDown_csr (by decide)) rfl
        rfl
    | callInterrupt => exact hsilent rfl rfl rfl rfl rfl
    | wait => exact hsilent rfl rfl rfl rfl rfl

/-- A call of the handler is atomic: in every run in which there are more than `n` steps behind each
interrupt, the thread does what the machine does that makes a call for each interrupt, between two
instructions of the program. -/
theorem interrupts_atomic (hI : Preemptible (vec.setWidth T.xlen) n I)
    (h : I k (archState l.cpu)) (hv : l.cpu.regs.csr Csr.MTVEC = vec)
    (hr : Run CpuThread.next (fun _ _ => True) l tr l') (hsp : Spaced n tr)
    (hlen : tr.countP Event.isStep ≤ k) :
    ∃ br, Run (Atom.next (vec.setWidth T.xlen)) (fun _ b => b.steps ≤ n + 1) (archState l.cpu) br
        (archState l'.cpu) ∧
      I (k - br.countP Atom.isStep) (archState l'.cpu) ∧
      br.countP Atom.isCall = tr.countP Event.isTaken ∧
      (br.map Atom.steps).sum = tr.countP Event.isStep :=
  mirrored_of_mode hI hr (.program h) hv (Nat.zero_le _) hsp hlen

/-- Interrupts are enabled in a loop, and the handler counts them. -/
def inLoop : System .RV32 :=
  let s := start .RV32 [0x0000006F, 0x00130313, 0x30200073]
  { s with regs := (s.regs.setCSR Csr.MSTATUS 8).setCSR Csr.MTVEC 4 }

/-- An interrupt in the loop. -/
theorem interrupts_atomic_loop :
    ∃ l br, Run CpuThread.next (fun _ _ => True) ⟨.step, inLoop⟩
        [.callInterrupt 0x80000007, .cpuStep, .cpuProcessIRQ true, .cpuStep, .cpuProcessIRQ false,
          .cpuStep, .cpuProcessIRQ false, .cpuStep] l ∧
      Run (Atom.next 4) (fun _ b => b.steps ≤ 2) (archState inLoop) br (archState l.cpu) ∧
      br.countP Atom.isCall = 1 := by
  have hl : (execute CpuThread.next (fun _ _ => True) ⟨.step, inLoop⟩
      [.callInterrupt 0x80000007, .cpuStep, .cpuProcessIRQ true, .cpuStep, .cpuProcessIRQ false,
        .cpuStep, .cpuProcessIRQ false, .cpuStep]).any (fun _ => true) = true := by decide
  obtain ⟨l, hl, -⟩ := exists_run_of_execute hl
  have hI : Preemptible (T := .RV32) ((4 : BitVec 32).setWidth 32) 1
      fun _ a => a.pc = 0 ∧ a.mem = inLoop.mem := by
    have hjal : read 32 inLoop.mem 0 4 = encode (.jal 0 0) := by decide
    have haddi : read 32 inLoop.mem 4 4 = encode (.opImm .addi 6 6 1) := by decide
    have hmret : read 32 inLoop.mem 8 4 = encode .mret := by decide
    have hsize (k : ℕ) (hk : k ≤ 8) : k + 4 ≤ Memory.SIZE := by
      unfold Memory.SIZE
      omega
    constructor
    · rintro k ⟨x, pc, mem, hx⟩ ⟨rfl, rfl⟩
      have hs : Supported (T := .RV32) ⟨x, 0, inLoop.mem, hx⟩ (.full (.jal 0 0)) :=
        ⟨⟨hsize 0 (by decide), fun _ _ h => by cases h⟩, trivial⟩
      have hat : (Fetched.full (.jal 0 0)).At (⟨x, 0, inLoop.mem, hx⟩ : Isa.State 32) :=
        ⟨trivial, hjal⟩
      have hn := Machine.next_eq_some.mpr ⟨hat, rfl⟩
      exact ⟨_, _, Atom.next_step.mpr ⟨hs, hn⟩, rfl, rfl⟩
    · rintro k ⟨x, pc, mem, hx⟩ ⟨rfl, rfl⟩
      have hs : Supported (T := .RV32) ⟨x, 4, inLoop.mem, hx⟩ (.full (.opImm .addi 6 6 1)) :=
        ⟨⟨hsize 4 (by decide), fun _ _ h => by cases h⟩, trivial⟩
      have hat : (Fetched.full (.opImm .addi 6 6 1)).At (⟨x, 4, inLoop.mem, hx⟩ : Isa.State 32) :=
        ⟨trivial, haddi⟩
      have hn := Machine.next_eq_some.mpr ⟨hat, rfl⟩
      exact ⟨_, _, le_rfl,
        Atom.next_call.mpr ⟨_, .cons hs hn (.nil _), ⟨hsize 8 le_rfl, hmret⟩, rfl⟩, rfl, rfl⟩
  obtain ⟨br, hbr, -, hcalls, -⟩ := interrupts_atomic (k := 4) hI ⟨rfl, rfl⟩ rfl hl (by decide)
    (by decide)
  exact ⟨l, br, hl, hbr, hcalls⟩

/-- The handler leaves the registers and the memory as they were. -/
def Unnoticed (vector : BitVec T.xlen) (n : ℕ) (a : Isa.State T.xlen) : Prop :=
  ∃ hs, hs.length ≤ n ∧ Atom.next vector a (.call hs) = some a

theorem preemptible_of_unnoticed {fs : List Fetched} {u : Isa.State T.xlen}
    (ha : Run Machine.next Supported a fs u)
    (hh : ∀ k b, Run Machine.next Supported a (fs.take k) b → Unnoticed (vec.setWidth T.xlen) n b) :
    Preemptible (vec.setWidth T.xlen) n fun j b =>
      ∃ k, k + j = fs.length ∧ Run Machine.next Supported a (fs.take k) b where
  step := by
    rintro j b ⟨k, hk, hb⟩
    have hlt : k < fs.length := by omega
    have hsplit : fs = fs.take k ++ fs[k] :: fs.drop (k + 1) := by
      rw [List.getElem_cons_drop, List.take_append_drop]
    rw [hsplit] at ha
    obtain ⟨b', hb', hrest⟩ := ha.exists_of_append
    obtain rfl := hb.unique hb'
    cases hrest with
    | @cons _ v _ _ _ hf hn _ =>
      refine ⟨fs[k], v, Atom.next_step.mpr ⟨hf, hn⟩, k + 1, by omega, ?_⟩
      rw [List.take_succ_eq_append_getElem hlt]
      exact hb.append (.cons hf hn (.nil v))
  call := by
    rintro j b ⟨k, hk, hb⟩
    obtain ⟨hs, hlen, hcall⟩ := hh k b hb
    exact ⟨hs, b, hlen, hcall, k, hk, hb⟩

/-- A handler that leaves registers and memory as they were is not noticed: whenever interrupts
arrive, more than `n` steps apart, the program goes through the states of its undisturbed run, and
all steps but at most `n + 1` for each interrupt are its own. -/
theorem interrupts_unnoticed {fs : List Fetched} {u : Isa.State T.xlen}
    (ha : Run Machine.next Supported (archState l.cpu) fs u)
    (hh : ∀ k b, Run Machine.next Supported (archState l.cpu) (fs.take k) b →
      Unnoticed (vec.setWidth T.xlen) n b)
    (hv : l.cpu.regs.csr Csr.MTVEC = vec) (hr : Run CpuThread.next (fun _ _ => True) l tr l')
    (hsp : Spaced n tr) (hlen : tr.countP Event.isStep ≤ fs.length) :
    ∃ k, Run Machine.next Supported (archState l.cpu) (fs.take k) (archState l'.cpu) ∧
      k ≤ tr.countP Event.isStep ∧
      tr.countP Event.isStep ≤ k + (n + 1) * tr.countP Event.isTaken := by
  obtain ⟨br, hbr, ⟨k, hk, hrun⟩, hcalls, hsum⟩ :=
    mirrored_of_mode (k := fs.length) (preemptible_of_unnoticed ha hh) hr
      (.program ⟨0, Nat.zero_add _, .nil _⟩) hv (Nat.zero_le _) hsp hlen
  have hle := Atom.countP_isStep_le br
  have hsteps : ∀ b ∈ br, b.steps ≤ n + 1 :=
    hbr.forall_mem (I := fun _ => True) (fun _ _ _ _ _ _ => trivial) (fun _ _ _ _ hP _ => hP)
      trivial
  have hge := Atom.sum_steps_le hsteps
  rw [hcalls] at hge
  obtain rfl : k = br.countP Atom.isStep := by omega
  exact ⟨_, hrun, by omega, by omega⟩

/-- Interrupts are enabled. Behind two `addi x5, x5, 1` and a loop is the handler, which flips a bit
of `x5` and flips it back. -/
def atHandled : System .RV32 :=
  let s := start .RV32 [0x00128293, 0x00128293, 0x0000006F, 0x0012C293, 0x0012C293, 0x30200073]
  { s with regs := (s.regs.setCSR Csr.MSTATUS 8).setCSR Csr.MTVEC 12 }

/-- Two `xori x5, x5, 1` and an `MRET` at 12. -/
def FlipsBack (b : Isa.State CpuType.RV32.xlen) : Prop :=
  read 32 b.mem 12 4 = encode (.opImm .xori 5 5 1) ∧
    read 32 b.mem 16 4 = encode (.opImm .xori 5 5 1) ∧ Atom.AtReturn (b.setPC 20)

instance FlipsBack.decidable (b : Isa.State CpuType.RV32.xlen) : Decidable (FlipsBack b) :=
  inferInstanceAs (Decidable (_ ∧ _))

/-- `xori x5, x5, 1` at `pc`. -/
def flip (pc : BitVec 32) (a : Isa.State 32) : Isa.State 32 :=
  ((a.setPC pc).set 5 (a.x 5 ^^^ 1)).next

theorem flip_x (pc : BitVec 32) (a : Isa.State 32) (r : Reg) :
    (flip pc a).x r = if r = 5 then a.x 5 ^^^ 1 else a.x r := by
  show ((a.setPC pc).set 5 (a.x 5 ^^^ 1)).x r = _
  rw [State.set_x]
  exact if_congr (and_iff_left (by decide)) rfl rfl

theorem next_flip (pc : BitVec 32) (a : Isa.State 32) (hpc : pc.toNat + 4 ≤ Memory.SIZE)
    (hat : read 32 a.mem pc.toNat 4 = encode (.opImm .xori 5 5 1)) :
    Supported (T := .RV32) (a.setPC pc) (.full (.opImm .xori 5 5 1)) ∧
      Machine.next (a.setPC pc) (.full (.opImm .xori 5 5 1)) = some (flip pc a) :=
  ⟨⟨⟨hpc, fun _ _ h => by cases h⟩, trivial⟩, Machine.next_eq_some.mpr ⟨⟨trivial, hat⟩, rfl⟩⟩

theorem FlipsBack.unnoticed {b : Isa.State 32} (h : FlipsBack b) :
    Unnoticed (T := .RV32) ((12 : BitVec 32).setWidth 32) 2 b := by
  obtain ⟨h₁, h₂, hret⟩ := h
  have hsize : 20 + 4 ≤ Memory.SIZE := hret.1
  obtain ⟨hs₁, hn₁⟩ := next_flip 12 b (by show 12 + 4 ≤ _; omega) h₁
  obtain ⟨hs₂, hn₂⟩ := next_flip 16 (flip 12 b) (by show 16 + 4 ≤ _; omega) h₂
  have hback : (flip 16 (flip 12 b)).setPC b.pc = b := by
    refine State.ext (funext fun r => ?_) rfl rfl
    show (flip 16 (flip 12 b)).x r = b.x r
    rw [flip_x, flip_x, flip_x, if_pos rfl, BitVec.xor_assoc, BitVec.xor_self, BitVec.xor_zero]
    split
    · next hr => rw [hr]
    · rfl
  exact ⟨_, le_rfl, Atom.next_call.mpr
    ⟨_, .cons hs₁ hn₁ (.cons hs₂ hn₂ (.nil _)), hret, hback⟩⟩

/-- An interrupt behind the first instruction: of the five steps that follow, three are those of the
handler. -/
theorem interrupts_unnoticed_return :
    let fs : List Fetched := [.full (.opImm .addi 5 5 1), .full (.opImm .addi 5 5 1),
      .full (.jal 0 0), .full (.jal 0 0), .full (.jal 0 0)]
    ∃ l k, Run CpuThread.next (fun _ _ => True) ⟨.step, atHandled⟩
        [.callInterrupt 0x80000007, .cpuStep, .cpuProcessIRQ true, .cpuStep, .cpuProcessIRQ false,
          .cpuStep, .cpuProcessIRQ false, .cpuStep, .cpuProcessIRQ false, .cpuStep] l ∧
      Run Machine.next Supported (archState atHandled) (fs.take k) (archState l.cpu) ∧ 2 ≤ k := by
  intro fs
  have hl : (execute CpuThread.next (fun _ _ => True) ⟨.step, atHandled⟩
      [.callInterrupt 0x80000007, .cpuStep, .cpuProcessIRQ true, .cpuStep, .cpuProcessIRQ false,
        .cpuStep, .cpuProcessIRQ false, .cpuStep, .cpuProcessIRQ false, .cpuStep]).any
      (fun _ => true) = true := by decide
  have hu (k : Fin 6) : (execute Machine.next Supported (archState atHandled) (fs.take k)).any
      (fun b => FlipsBack b) = true := by
    revert k
    decide
  obtain ⟨l, hl, -⟩ := exists_run_of_execute hl
  obtain ⟨u, hu₅, -⟩ := exists_run_of_execute (hu 5)
  have hh (k : ℕ) (b : Isa.State 32)
      (hb : Run Machine.next (Supported (T := .RV32)) (archState atHandled) (fs.take k) b) :
      Unnoticed (T := .RV32) ((12 : BitVec 32).setWidth 32) 2 b := by
    obtain ⟨b', hb', hflips⟩ := exists_run_of_execute (hu ⟨min k 5, by omega⟩)
    rw [show fs.take k = fs.take (min k 5) from List.take_eq_take_min] at hb
    obtain rfl := hb.unique hb'
    exact (of_decide_eq_true hflips).unnoticed
  obtain ⟨k, hk, -, hle⟩ := interrupts_unnoticed (T := .RV32) hu₅ hh rfl hl (by decide) (by decide)
  have hle : 2 + 3 ≤ k + 3 := hle
  exact ⟨l, k, hl, hk, Nat.le_of_add_le_add_right hle⟩

end Runs

end RiscvTlm
