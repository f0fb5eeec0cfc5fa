import RiscvTlm.FetchPaths

/-!
# What a step sees of the bus

A CPU sees of its bus the memory and the answers to its transactions. `BusRelation` is a relation of
buses that have the same memory, give the same answers and stay related; then a step of CPUs that
are alike but for their buses has the same outcome and leaves them alike (`blind_cpuStep`). Between
equal buses such a relation is an invariant of the bus (`BusInvariant`).
-/

namespace RiscvTlm

open Prog Transitions

variable {T : CpuType} {α β : Type}

/-- Answers to a transaction: the same one, from buses that `P` relates, or the same fault. -/
inductive Answers (P : Bus → Bus → Prop) :
    Except Fault (Bus × Payload) → Except Fault (Bus × Payload) → Prop
  | ok {b b' : Bus} (trans : Payload) (h : P b b') : Answers P (.ok (b, trans)) (.ok (b', trans))
  | error (e : Fault) : Answers P (.error e) (.error e)

/-- A relation of buses that a CPU cannot tell apart, in an environment. -/
structure BusRelation where
  rel : Host → Bus → Bus → Prop
  memory : ∀ {host b b'}, rel host b b' → b'.memory = b.memory
  stop : ∀ {host b b'},
    rel host b b' → rel host { b with stopped := true } { b' with stopped := true }
  transport : ∀ {host b b'} (trans : Payload), rel host b b' →
    Answers (rel host) (BusCtrl.bTransport b host trans) (BusCtrl.bTransport b' host trans)

/-- CPUs that are alike but for their buses. -/
inductive Alike (R : BusRelation) : System T → System T → Prop
  | mk {s : System T} {b' : Bus} (h : R.rel s.host s.bus b') : Alike R s { s with bus := b' }

theorem Alike.rel {R : BusRelation} {s t : System T} (h : Alike R s t) :
    t = { s with bus := t.bus } ∧ R.rel s.host s.bus t.bus := by
  cases h with
  | mk h => exact ⟨rfl, h⟩

/-- A program that cannot tell the buses apart either. -/
def Blind (R : BusRelation) (x : Sim T α) : Prop := Respects (Alike R) x

/-! ## The building blocks -/

section Blocks

variable {R : BusRelation} {x y : Sim T α} {k : α → Sim T β}

theorem blind_pure (a : α) : Blind R (pure a : Sim T α) := Respects.pure a

theorem blind_throw (e : Fault) : Blind R (throw e : Sim T α) := Respects.throw e

theorem blind_bind (hx : Blind R x) (hk : ∀ a, Blind R (k a)) :
    Blind R (x >>= k) := Respects.bind hx hk

theorem blind_ite {c : Prop} [Decidable c] (hx : Blind R x) (hy : Blind R y) :
    Blind R (if c then x else y) := Respects.ite (fun _ => hx) fun _ => hy

/-- What looks at the CPU but not at its bus. -/
theorem blind_look {f : System T → α} (hf : ∀ s b, f { s with bus := b } = f s) :
    Blind R (do return f (← get) : Sim T α) := by
  intro s _ hs
  cases hs with
  | @mk b' h =>
    show Related _ (.ok (f s) s) (.ok (f { s with bus := b' }) { s with bus := b' })
    rw [hf s b']
    exact .ok _ (.mk h)

/-- What changes the CPU but not its bus. -/
theorem blind_change {f : System T → System T} (hb : ∀ s, (f s).bus = s.bus)
    (hh : ∀ s, (f s).host = s.host) (hf : ∀ s b, f { s with bus := b } = { f s with bus := b }) :
    Blind R (modify f : Sim T Unit) := by
  refine .modify fun s _ hs => ?_
  cases hs with
  | @mk b' h =>
    rw [hf s b']
    exact .mk (by rw [hb, hh]; exact h)

theorem blind_getValue (n : ℕ) : Blind (T := T) R (getValue n) :=
  blind_look (f := fun s => s.regs.getValue n) fun _ _ => rfl

theorem blind_getPC : Blind (T := T) R getPC :=
  blind_look (f := fun s => s.regs.getPC) fun _ _ => rfl

theorem blind_getCSR (c : ℕ) : Blind (T := T) R (getCSR c) :=
  blind_look (f := fun s => s.regs.getCSR s.host c) fun _ _ => rfl

theorem blind_scStop : Blind (T := T) R scStop := by
  refine .modify fun s _ hs => ?_
  cases hs with
  | mk h => exact ⟨R.stop h⟩

theorem blind_bTransport (trans : Payload) :
    Blind (T := T) R (bTransport trans) := by
  intro s _ hs
  cases hs with
  | @mk b' h =>
    have ht := R.transport trans h
    have hok (b : Bus) (r : Bus × Payload) (hr : BusCtrl.bTransport b s.host trans = .ok r) :
        (bTransport trans).run { s with bus := b } = .ok r.2 { s with bus := r.1 } := by
      rw [bTransport, run_get_bind]
      dsimp only
      rw [hr]
      rfl
    have herror (b : Bus) (e : Fault) (hr : BusCtrl.bTransport b s.host trans = .error e) :
        (bTransport trans).run { s with bus := b } = .error e { s with bus := b } := by
      rw [bTransport, run_get_bind]
      dsimp only
      rw [hr]
      rfl
    have hself := hok s.bus
    have hself' := herror s.bus
    generalize BusCtrl.bTransport s.bus s.host trans = r at ht hself hself'
    generalize hr' : BusCtrl.bTransport b' s.host trans = r' at ht
    cases ht with
    | ok p hp =>
      rw [hself _ rfl, hok b' _ hr']
      exact .ok p ⟨hp⟩
    | error e =>
      rw [hself' _ rfl, herror b' _ hr']
      exact .error e ⟨h⟩

theorem blind_readDataMem (addr : BitVec 64) (size : ℕ) :
    Blind (T := T) R (readDataMem addr size) := by
  refine Respects.get_bind fun s _ hs => ?_
  have hs' := hs
  cases hs with
  | mk h =>
    refine blind_bind (blind_bTransport _) (fun trans => ?_) _ _ hs'
    exact blind_ite (blind_bind (blind_throw _) fun _ => blind_pure _) (blind_pure _)

theorem blind_writeDataMem (addr : BitVec 64) (data : BitVec 32) (size : ℕ) :
    Blind (T := T) R (writeDataMem addr data size) :=
  blind_bind (blind_bTransport _) fun _ => blind_ite (blind_throw _) (blind_pure _)

theorem blind_tlbReserved (a : BitVec 32) : Blind (T := T) R (AExtension.tlbReserved a) := by
  intro s _ hs
  cases hs with
  | @mk b' h =>
    by_cases ha : a ∈ s.tlbAEntries
    · have hrun (u : System T) (hu : u.tlbAEntries = s.tlbAEntries) :
          (AExtension.tlbReserved a).run u =
            .ok true { u with tlbAEntries := u.tlbAEntries.erase a } := by
        rw [AExtension.tlbReserved, run_get_bind, if_pos (hu ▸ ha)]
        rfl
      rw [hrun s rfl, hrun { s with bus := b' } rfl]
      exact .ok true (.mk h)
    · have hrun (u : System T) (hu : u.tlbAEntries = s.tlbAEntries) :
          (AExtension.tlbReserved a).run u = .ok false u := by
        rw [AExtension.tlbReserved, run_get_bind, if_neg (hu ▸ ha)]
        rfl
      rw [hrun s rfl, hrun { s with bus := b' } rfl]
      exact .ok false (.mk h)

/-- The programs that cannot tell the buses apart, with any change of the state. -/
def BusRelation.blind (R : BusRelation) : ProgramClass T where
  holds x := Blind R x
  anyPC := True
  value _ := True
  csr _ := True
  write := True
  tlb := True
  stop := True
  value_zero := trivial
  pure := blind_pure
  throw := blind_throw
  bind := blind_bind
  getValue := blind_getValue
  getCSR := blind_getCSR
  getPC_bind hk := blind_bind blind_getPC fun pc => hk pc (.inl trivial)
  setValue _ _ := blind_change (fun _ => rfl) (fun _ => rfl) fun _ _ => rfl
  setCSR _ _ := blind_change (fun _ => rfl) (fun _ => rfl) fun _ _ => rfl
  setPC _ := blind_change (fun _ => rfl) (fun _ => rfl) fun _ _ => rfl
  readDataMem := blind_readDataMem
  writeDataMem addr data size _ := blind_writeDataMem addr data size
  tlbReserve _ _ := blind_change (fun _ => rfl) (fun _ => rfl) fun _ _ => rfl
  tlbReserved a _ := blind_tlbReserved a
  scStop _ := blind_scStop

theorem blind_raiseException (cause : ExceptionCause) (w : BitVec 32) :
    Blind (T := T) R (raiseException cause w) :=
  holds_raiseException R.blind w trivial (fun _ => trivial) (fun _ => trivial)
    (blind_change (fun _ => rfl) (fun _ => rfl) fun _ _ => rfl)

/-! ## A step -/

theorem blind_execDecoded (w : BitVec 32) (d : Decoded) : Blind (T := T) R (execDecoded w d) :=
  R.blind.execDecoded w ⟨fun _ _ => trivial, fun _ _ => trivial, fun _ => trivial,
    fun _ => trivial, fun _ => trivial, fun cause _ => blind_raiseException cause w, .inl trivial⟩

/-- The direct pointer reaches the memory, which the buses have in common. -/
theorem blind_fetchDmi : Blind (T := T) R fetchDmi := by
  intro s _ hs
  cases hs with
  | @mk b' h =>
    rw [run_fetchDmi, run_fetchDmi]
    dsimp only
    rw [R.memory h]
    split
    · exact .ok () (.mk h)
    · exact .error _ (.mk h)

theorem blind_fetchBus : Blind (T := T) R fetchBus := by
  have hbody (trans : Payload) : Blind (T := T) R (do
      let trans ← bTransport trans
      modify fun s => { s with
        INSTR := trans.data
        transDmiAllowed := trans.dmiAllowed
        transResponseStatus := trans.responseStatus }
      if trans.isResponseError then
        throw (.scReportError "CPU base" "Read memory")
      if trans.dmiAllowed then
        modify fun s => { s with dmiPtrValid := s.bus.memory.getDirectMemPtr }) := by
    refine blind_bind (blind_bTransport _) fun trans =>
      blind_bind (blind_change (fun _ => rfl) (fun _ => rfl) fun _ _ => rfl) fun _ => ?_
    have hdmi : Blind (T := T) R (if trans.dmiAllowed then
        modify fun s => { s with dmiPtrValid := s.bus.memory.getDirectMemPtr } else pure ()) := by
      refine blind_ite ?_ (blind_pure _)
      refine .modify fun s _ hs => ?_
      cases hs with
      | @mk b' h =>
        dsimp only
        rw [R.memory h]
        exact .mk h
    exact blind_ite (blind_bind (blind_throw _) fun _ => hdmi) hdmi
  intro s _ hs
  cases hs with
  | @mk b' h => exact hbody (fetchTrans s) s { s with bus := b' } (.mk h)

theorem blind_fetch : Blind (T := T) R fetch := by
  have hnext : Blind (T := T) R (do return (← get).INSTR) :=
    blind_look (f := fun s => s.INSTR) fun _ _ => rfl
  have hpath (valid : Bool) : Blind (T := T) R (do
      if valid then fetchDmi else fetchBus
      return (← get).INSTR) :=
    blind_ite (blind_bind blind_fetchDmi fun _ => hnext) (blind_bind blind_fetchBus fun _ => hnext)
  intro s _ hs
  cases hs with
  | @mk b' h => exact hpath s.dmiPtrValid s { s with bus := b' } (.mk h)

theorem blind_cpuStep : Blind (T := T) R cpuStep :=
  blind_bind blind_fetch fun w => blind_execDecoded w (decodeCascade T w)

end Blocks

/-! ## Invariants of the bus -/

/-- What holds of the bus however it is used. -/
structure BusInvariant (I : Host → Bus → Prop) : Prop where
  stop : ∀ {host b}, I host b → I host { b with stopped := true }
  transport : ∀ {host b trans r}, I host b → BusCtrl.bTransport b host trans = .ok r → I host r.1

namespace BusInvariant

variable {I : Host → Bus → Prop}

/-- The equality of buses that meet the invariant. -/
def relation (hI : BusInvariant I) : BusRelation where
  rel host b b' := b' = b ∧ I host b
  memory h := congrArg Bus.memory h.1
  stop h := ⟨by rw [h.1], hI.stop h.2⟩
  transport := by
    intro host b b' trans h
    obtain ⟨rfl, h⟩ := h
    cases hr : BusCtrl.bTransport b' host trans with
    | ok r => exact .ok r.2 ⟨rfl, hI.transport h hr⟩
    | error e => exact .error e

/-- A step keeps the invariant. -/
theorem cpuStep {s t : System T} {r : Bool} (hI : BusInvariant I)
    (h : RiscvTlm.cpuStep.run s = .ok r t) (hs : I s.host s.bus) : I t.host t.bus := by
  have hrel := blind_cpuStep (R := hI.relation) s s (.mk ⟨rfl, hs⟩)
  rw [h] at hrel
  cases hrel with
  | ok _ ht => exact ht.rel.2.2

end BusInvariant

/-! ## What no program sees -/

/-- The timer answers and keeps its registers whatever notification is pending. -/
theorem Timer.bTransport_timerEvent (timer : Timer) (event : Option (BitVec 64)) (host : Host)
    (trans : Payload) : ∃ event',
      Timer.bTransport { timer with timerEvent := event } host trans =
        ({ (timer.bTransport host trans).1 with timerEvent := event' },
          (timer.bTransport host trans).2) := by
  have hnotify (mtime mtimecmp delay : BitVec 64) : ∃ event',
      Timer.notify ⟨mtime, mtimecmp, event⟩ host.timeStamp delay =
        { Timer.notify ⟨mtime, mtimecmp, timer.timerEvent⟩ host.timeStamp delay with
          timerEvent := event' } := by
    refine ⟨(Timer.notify ⟨mtime, mtimecmp, event⟩ host.timeStamp delay).timerEvent, ?_⟩
    unfold Timer.notify
    cases event <;> cases timer.timerEvent <;> dsimp only <;> split <;> try split
    all_goals rfl
  unfold Timer.bTransport
  cases trans.command <;> dsimp only <;> split_ifs
  all_goals
    first
    | exact ⟨event, rfl⟩
    | exact (hnotify _ _ _).imp fun event' h => congrArg (·, _) h

/-- Buses that differ in the pending notification of the timer and in what the terminal has got: `d`
there and `d'` here, before the same bytes on both. -/
def unseen (d d' : List (BitVec 8)) : BusRelation where
  rel _ b b' := ∃ event out, b.trace.output = out ++ d ∧
    b' = { b with timer := { b.timer with timerEvent := event }, trace := ⟨out ++ d'⟩ }
  memory := by
    rintro _ b _ ⟨event, out, -, rfl⟩
    rfl
  stop := by
    rintro _ b _ ⟨event, out, h, rfl⟩
    exact ⟨event, out, h, rfl⟩
  transport := by
    rintro host b _ trans ⟨event, out, hout, rfl⟩
    unfold BusCtrl.bTransport
    dsimp only
    split_ifs
    · exact .ok _ ⟨event, out, hout, rfl⟩
    · obtain ⟨event', h⟩ := Timer.bTransport_timerEvent b.timer event host trans
      rw [h]
      exact .ok _ ⟨event', out, hout, rfl⟩
    · exact .ok _ ⟨event, Bytes.byte trans.data 0 :: out,
        congrArg (Bytes.byte trans.data 0 :: ·) hout, rfl⟩
    · cases b.memory.bTransport trans with
      | ok r => exact .ok _ ⟨event, out, hout, rfl⟩
      | error e => exact .error e

/-! ## Runs of the thread -/

section Thread

variable {R : BusRelation} {d d' : List (BitVec 8)} {l l' m : CpuThread T} {e : Event T}
  {tr : List (Event T)}

theorem blind_cpuProcessIRQ : Blind (T := T) R cpuProcessIRQ := by
  intro s _ hs
  cases hs with
  | @mk b' h =>
    have hdown (b : Bus) : irqDown { s with bus := b } = { irqDown s with bus := b } := by
      unfold irqDown
      dsimp only
      split <;> rfl
    have hrun (b : Bus) : cpuProcessIRQ.run { s with bus := b } =
        if s.interrupt then
          if s.mie ∧ ¬s.meip then .ok true { irqTaken s with bus := b }
          else .ok false { s with bus := b }
        else .ok false { irqDown s with bus := b } := by
      rw [run_cpuProcessIRQ, hdown]
      rfl
    have hself : cpuProcessIRQ.run s = _ := hrun s.bus
    rw [hself, hrun]
    split
    · split
      · exact .ok true (.mk h)
      · exact .ok false (.mk h)
    · have hd : Alike R { irqDown s with bus := s.bus } { irqDown s with bus := b' } :=
        .mk (s := { irqDown s with bus := s.bus }) (irqDown_host.symm ▸ h)
      exact .ok false hd

/-- The thread with another pending notification and another output of the terminal. -/
def CpuThread.withUnseen (l : CpuThread T) (event : Option (BitVec 64)) (output : List (BitVec 8)) :
    CpuThread T :=
  ⟨l.point, { l.cpu with bus := { l.cpu.bus with
    timer := { l.cpu.bus.timer with timerEvent := event }
    trace := ⟨output⟩ } }⟩

theorem next_unseen (hn : l.next e = some l') (hp : m.point = l.point)
    (h : Alike (unseen d d') l.cpu m.cpu) :
    ∃ m', m.next e = some m' ∧ m'.point = l'.point ∧ Alike (unseen d d') l'.cpu m'.cpu := by
  obtain ⟨point, s⟩ := l
  obtain ⟨point', t⟩ := m
  obtain rfl : point' = point := hp
  have hs := h
  have hstop : t.bus.stopped = s.bus.stopped := by
    cases h with
    | mk h =>
      obtain ⟨event, out, -, rfl⟩ := h
      rfl
  cases point' <;> cases e <;> simp only [CpuThread.next, reduceCtorEq] at hn ⊢
  case step.cpuStep =>
    split at hn
    · cases hn
    next hgo =>
      rw [if_neg (by rw [hstop]; exact hgo)]
      have hrel := blind_cpuStep s t hs
      split at hn
      next b u hu =>
        cases hn
        rw [hu] at hrel
        generalize cpuStep.run t = r at hrel
        cases hrel with
        | ok _ hx => exact ⟨_, rfl, rfl, hx⟩
      next => cases hn
  case step.callInterrupt cause =>
    cases hn
    cases h with
    | mk h => exact ⟨_, rfl, rfl, .mk h⟩
  case step.wait host =>
    cases hn
    cases h with
    | mk h => exact ⟨_, rfl, rfl, .mk h⟩
  case irq.cpuProcessIRQ taken =>
    have hrel := blind_cpuProcessIRQ s t hs
    split at hn
    next b u hu =>
      obtain ⟨rfl, hl⟩ := Option.ite_none_right_eq_some.mp hn
      cases hl
      rw [hu] at hrel
      generalize cpuProcessIRQ.run t = r at hrel
      cases hrel with
      | ok _ hx => exact ⟨_, if_pos rfl, rfl, hx⟩
    next => cases hn

theorem run_alike {P : CpuThread T → Event T → Prop} (hr : Run CpuThread.next P l tr l')
    (hp : m.point = l.point) (h : Alike (unseen d d') l.cpu m.cpu) :
    ∃ m', Run CpuThread.next (fun _ _ => True) m tr m' ∧ m'.point = l'.point ∧
      Alike (unseen d d') l'.cpu m'.cpu := by
  induction hr generalizing m with
  | nil l => exact ⟨m, .nil m, hp, h⟩
  | cons _ hn _ ih =>
    obtain ⟨m₁, hm, hp₁, h₁⟩ := next_unseen hn hp h
    obtain ⟨m', hr', hp', h'⟩ := ih hp₁ h₁
    exact ⟨m', .cons trivial hm hr', hp', h'⟩

/-- Neither the pending notification nor what the terminal has got has an influence on the program:
with others, the thread makes the same run, in which it sends the same bytes. -/
theorem run_unseen (hr : Run CpuThread.next (fun _ _ => True) l tr l') (event : Option (BitVec 64))
    (output : List (BitVec 8)) :
    ∃ event' out, l'.cpu.bus.trace.output = out ++ l.cpu.bus.trace.output ∧
      Run CpuThread.next (fun _ _ => True) (l.withUnseen event output) tr
        (l'.withUnseen event' (out ++ output)) := by
  have h : Alike (unseen l.cpu.bus.trace.output output) l.cpu (l.withUnseen event output).cpu :=
    .mk ⟨event, [], rfl, rfl⟩
  obtain ⟨m', hm, hp, h'⟩ := run_alike hr (m := l.withUnseen event output) rfl h
  obtain ⟨hcpu, event', out, hout, hbus⟩ := h'.rel
  refine ⟨event', out, hout, ?_⟩
  have he : m' = l'.withUnseen event' (out ++ output) := by
    obtain ⟨point, t⟩ := m'
    obtain rfl : point = l'.point := hp
    rw [hbus] at hcpu
    exact congrArg (CpuThread.mk _) hcpu
  exact he ▸ hm

/-- A byte that is stored to the terminal, in the middle of another one's output. -/
theorem run_unseen_store :
    let tr : List (Event .RV32) := [.cpuStep, .cpuProcessIRQ false, .cpuStep, .cpuProcessIRQ false,
      .cpuStep]
    let l : CpuThread .RV32 := ⟨.step, start .RV32 [0x400002B7, 0x04100313, 0x00628023]⟩
    ∃ l' event, Run CpuThread.next (fun _ _ => True) l tr l' ∧
      Run CpuThread.next (fun _ _ => True) (l.withUnseen (some 5) [0x42]) tr
        (l'.withUnseen event [0x41, 0x42]) := by
  intro tr l
  have hl : (execute CpuThread.next (fun _ _ => True) l tr).any
      (fun l' => l'.cpu.bus.trace.output = [0x41]) = true := by decide
  obtain ⟨l', hl, hout⟩ := exists_run_of_execute hl
  obtain ⟨event, out, h, hr⟩ := run_unseen hl (some 5) [0x42]
  have hnil : out = [0x41] := by
    rw [of_decide_eq_true hout] at h
    exact (h.trans (List.append_nil out)).symm
  rw [hnil] at hr
  exact ⟨l', event, hl, hr⟩

end Thread

end RiscvTlm
