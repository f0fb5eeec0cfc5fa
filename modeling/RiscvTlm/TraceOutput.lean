import RiscvTlm.BusErrors
import RiscvTlm.Lib.Transitions

/-!
# The terminal

Runs of accesses over the bus in any order, with anything in between that leaves the targets as they
are, and what the terminal gets in them. It is to get the least significant byte of each store to
its window. The target serves every command alike, so that a load or a fetch from the window sends a
byte too.
-/

namespace RiscvTlm

open Bytes Prog Transitions

variable {T : CpuType} {s t : System T} {bus : Bus} {host : Host} {trans : Payload}

/-- An access, or what a CPU does without the bus. -/
inductive BusEvent (T : CpuType)
  | access (a : Access)
  | compute (t : System T)

def BusEvent.next (s : System T) : BusEvent T → Option (System T)
  | .access a =>
    match a.run.run s with
    | .ok _ t => some t
    | .error .. => none
  | .compute t => some { t with bus := { s.bus with stopped := t.bus.stopped } }

/-- A run of accesses. -/
abbrev BusRun (s : System T) (events : List (BusEvent T)) (t : System T) : Prop :=
  Run BusEvent.next (fun _ _ => True) s events t

/-- The window of the terminal. -/
def InWindow (addr : BitVec 64) : Prop := 0x40000000 ≤ addr.toNat ∧ addr.toNat ≤ 0x40000003

instance (addr : BitVec 64) : Decidable (InWindow addr) := inferInstanceAs (Decidable (_ ∧ _))

/-- The bytes that the terminal has got, the first one first. -/
def System.terminal (s : System T) : List (BitVec 8) := s.bus.trace.output.reverse

/-- What a store sends to the terminal. -/
def BusEvent.stored : BusEvent T → List (BitVec 8)
  | .access (.write addr data _) => if InWindow addr then [byte data 0] else []
  | _ => []

/-- The terminal gets the bytes stored to its window, in their order, and no others. -/
def TraceExact (s : System T) (events : List (BusEvent T)) (t : System T) : Prop :=
  t.terminal = s.terminal ++ events.flatMap BusEvent.stored

/-- Not a load or a fetch from the window. -/
def BusEvent.Quiet (s : System T) : BusEvent T → Prop
  | .access .fetch => ¬InWindow (fetchTrans s).address
  | .access (.read addr _) => ¬InWindow addr
  | .access (.write ..) | .compute _ => True

instance BusEvent.decidableQuiet (s : System T) : (e : BusEvent T) → Decidable (e.Quiet s)
  | .access .fetch | .access (.read ..) => inferInstanceAs (Decidable (¬InWindow _))
  | .access (.write ..) | .compute _ => .isTrue trivial

/-! ## One access -/

/-- What an event sends to the terminal. -/
def BusEvent.sent (s : System T) : BusEvent T → List (BitVec 8)
  | .access a => if InWindow (a.payload s).address then [byte (a.payload s).data 0] else []
  | .compute _ => []

theorem inWindow_iff (addr : BitVec 64) :
    InWindow addr ↔ addr.toNat / 4 = TRACE_MEMORY_ADDRESS / 4 := by
  unfold InWindow TRACE_MEMORY_ADDRESS
  omega

/-- The terminal is selected by the word of the address. -/
theorem BusCtrl.bTransport_trace {r : Bus × Payload} (h : bTransport bus host trans = .ok r) :
    r.1.trace.output.reverse = bus.trace.output.reverse ++
      if InWindow trans.address then [byte trans.data 0] else [] := by
  have hw := inWindow_iff trans.address
  unfold bTransport at h
  simp only at h
  split_ifs at h with hhost htimer htrace
  · have hn : ¬InWindow trans.address := by
      rw [hw]
      unfold TO_HOST_ADDRESS at hhost
      unfold TRACE_MEMORY_ADDRESS
      omega
    cases h
    rw [if_neg hn, List.append_nil]
  · have hn : ¬InWindow trans.address := by
      rw [hw]
      unfold TIMER_MEMORY_ADDRESS_HI TIMER_MEMORY_ADDRESS_LO TIMERCMP_MEMORY_ADDRESS_HI
        TIMERCMP_MEMORY_ADDRESS_LO at htimer
      unfold TRACE_MEMORY_ADDRESS
      omega
    cases h
    rw [if_neg hn, List.append_nil]
  · cases h
    rw [if_pos (hw.mpr htrace)]
    exact List.reverse_cons
  · rw [if_neg fun hin => htrace (hw.mp hin), List.append_nil]
    cases hm : bus.memory.bTransport trans with
    | ok r' =>
      rw [hm] at h
      cases h
      rfl
    | error e =>
      rw [hm] at h
      cases h

theorem bTransport_eq_ok {p : Payload} (h : (bTransport trans).run s = .ok p t) :
    ∃ r, BusCtrl.bTransport s.bus s.host trans = .ok r ∧ p = r.2 ∧ t = { s with bus := r.1 } := by
  rw [bTransport, run_get_bind] at h
  cases hr : BusCtrl.bTransport s.bus s.host trans with
  | ok r =>
    rw [hr] at h
    cases h
    exact ⟨r, rfl, rfl, rfl⟩
  | error e =>
    rw [hr] at h
    cases h

/-- What follows a transaction and keeps the bus leaves the bus of the transaction. -/
theorem bus_of_bTransport {α : Type} {k : Payload → Sim T α} {a : α}
    (hk : ∀ p, Keeps System.bus (k p)) (h : (bTransport trans >>= k).run s = .ok a t) :
    ∃ r, BusCtrl.bTransport s.bus s.host trans = .ok r ∧ t.bus = r.1 := by
  obtain ⟨p, u, hp, hu⟩ := bind_eq_ok h
  obtain ⟨r, hr, rfl, rfl⟩ := bTransport_eq_ok hp
  exact ⟨r, hr, (hk r.2).eq_ok hu⟩

/-- An access that returns leaves the bus of its transaction. -/
theorem Access.bus_eq {a : Access} (h : a.run.run s = .ok () t) :
    ∃ r, BusCtrl.bTransport s.bus s.host (a.payload s) = .ok r ∧ t.bus = r.1 := by
  cases a with
  | fetch =>
    refine bus_of_bTransport (fun p => ?_) ((run_get_bind _ s).symm.trans h)
    have hdmi : Keeps System.bus (if p.dmiAllowed then
        modify fun s : System T => { s with dmiPtrValid := s.bus.memory.getDirectMemPtr }
        else pure () : Sim T Unit) := .ite (.modify fun _ => rfl) (.pure _)
    exact .bind (.modify fun _ => rfl) fun _ => .ite (.bind (.throw _) fun _ => hdmi) hdmi
  | read addr size =>
    obtain ⟨data, u, hread, hu⟩ := bind_eq_ok h
    cases hu
    refine bus_of_bTransport (fun p => ?_) ((run_get_bind _ s).symm.trans hread)
    exact .ite (.bind (.throw _) fun _ => .pure _) (.pure _)
  | write addr data size =>
    refine bus_of_bTransport (fun p => ?_) h
    exact .ite (.throw _) (.pure _)

theorem terminal_of_next {e : BusEvent T} (h : e.next s = some t) :
    t.terminal = s.terminal ++ e.sent s := by
  cases e with
  | access a =>
    simp only [BusEvent.next] at h
    split at h
    next hs =>
      cases h
      obtain ⟨r, hr, ht⟩ := Access.bus_eq hs
      rw [System.terminal, ht, BusCtrl.bTransport_trace hr]
      rfl
    next => cases h
  | compute t =>
    cases h
    exact (List.append_nil _).symm

/-! ## Runs -/

theorem sent_eq_or (s : System T) (e : BusEvent T) :
    e.sent s = e.stored ∨ e.stored.length < (e.sent s).length := by
  cases e with
  | access a =>
    cases a with
    | fetch | read =>
      simp only [BusEvent.sent]
      split_ifs
      · exact .inr Nat.zero_lt_one
      · exact .inl rfl
    | write => exact .inl rfl
  | compute => exact .inl rfl

/-- A load or a fetch from the window sends a byte that nobody stored. -/
theorem sent_eq_iff (s : System T) (e : BusEvent T) : e.sent s = e.stored ↔ e.Quiet s := by
  cases e with
  | access a =>
    cases a with
    | fetch | read => exact ite_eq_right_iff.trans (forall_congr' fun _ => by simp)
    | write => exact iff_of_true rfl trivial
  | compute => exact iff_of_true rfl trivial

/-- A run sends just what is stored to the window exactly when no load and no fetch of it is from
the window. -/
theorem traceExact_iff {events : List (BusEvent T)} (h : BusRun s events t) :
    TraceExact s events t ↔ Run BusEvent.next BusEvent.Quiet s events t := by
  refine (h.out_eq_iff (fun _ _ _ => terminal_of_next) sent_eq_or).trans ?_
  exact ⟨Run.mono fun s e => (sent_eq_iff s e).mp, Run.mono fun s e => (sent_eq_iff s e).mpr⟩

/-- Two stores to the window among other accesses. -/
theorem traceExact_stores : ∃ t, BusRun (start .RV32 [])
      [.access (.write 0x40000000 0x48 1), .access .fetch, .access (.write 0x200 0x21 1),
        .access (.write 0x40000003 0x1069 2), .access (.read 0x200 1)] t ∧
    TraceExact (start .RV32 [])
      [.access (.write 0x40000000 0x48 1), .access .fetch, .access (.write 0x200 0x21 1),
        .access (.write 0x40000003 0x1069 2), .access (.read 0x200 1)] t ∧
    t.terminal = [0x48, 0x69] := by
  have h : (execute BusEvent.next BusEvent.Quiet (start .RV32 [])
      [.access (.write 0x40000000 0x48 1), .access .fetch, .access (.write 0x200 0x21 1),
        .access (.write 0x40000003 0x1069 2), .access (.read 0x200 1)]).any
      (fun t => t.terminal = [0x48, 0x69]) = true := by decide
  obtain ⟨t, hr, ht⟩ := exists_run_of_execute h
  have hrun := hr.mono fun _ _ _ => trivial
  exact ⟨t, hrun, (traceExact_iff hrun).mpr hr, of_decide_eq_true ht⟩

/-- A load from the window, and a fetch from it. -/
theorem not_traceExact_load :
    (∃ t, BusRun (start .RV32 []) [.access (.read 0x40000000 1)] t ∧
      ¬TraceExact (start .RV32 []) [.access (.read 0x40000000 1)] t) ∧
    ∃ t, BusRun (reset (Memory.load []) 0x40000000 ⟨0, id, fun _ => 0⟩ : System .RV32)
        [.access .fetch] t ∧
      ¬TraceExact (reset (Memory.load []) 0x40000000 ⟨0, id, fun _ => 0⟩ : System .RV32)
        [.access .fetch] t :=
  ⟨⟨_, .cons trivial rfl (.nil _), List.cons_ne_nil _ _⟩,
    ⟨_, .cons trivial rfl (.nil _), List.cons_ne_nil _ _⟩⟩

end RiscvTlm
