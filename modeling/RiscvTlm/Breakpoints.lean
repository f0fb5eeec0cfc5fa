import RiscvTlm.DebugRegisters
import RiscvTlm.DebugStepping
import RiscvTlm.Lib.History
import RiscvTlm.Lib.Loop

/-!
# Breakpoints

The packets that insert and remove breakpoints, in any order, and a `c` after them. The code keeps
one set of 32-bit keys for the addresses of both types: a key is in it when the last packet with
that key inserts it. A breakpoint is live by its address and its type. Where the PC goes, the two
are to agree; on RV32 they do for addresses of 32 bits with one type each (`Plain`).
-/

namespace RiscvTlm.Debug

open CString HexText History Loop

variable {T : CpuType} {d d' : Debug T} {fuel : ℕ}

inductive BreakpointCommand
  | Z0
  | Z1
  | z0
  | z1
  deriving DecidableEq, Repr

def BreakpointCommand.name : BreakpointCommand → List Char
  | .Z0 => ['Z', '0']
  | .Z1 => ['Z', '1']
  | .z0 => ['z', '0']
  | .z1 => ['z', '1']

/-- A packet that names a breakpoint by its address. -/
structure BreakpointPacket where
  command : BreakpointCommand
  addr : BitVec 64
  kind : BitVec 64
  deriving DecidableEq, Repr

namespace BreakpointPacket

def text (p : BreakpointPacket) : List Char :=
  p.command.name ++ ',' :: (Nat.toDigits 16 p.addr.toNat ++ ',' :: Nat.toDigits 16 p.kind.toNat)

def type (p : BreakpointPacket) : ℕ :=
  match p.command with
  | .Z0 | .z0 => 0
  | .Z1 | .z1 => 1

def inserts (p : BreakpointPacket) : Bool :=
  match p.command with
  | .Z0 | .Z1 => true
  | .z0 | .z1 => false

/-- The key that the code keeps for the address. -/
def key (p : BreakpointPacket) : BitVec 32 := BitVec.ofInt 32 (min (2 ^ 63 - 1) p.addr.toNat)

/-- The set after the packet, if it is performed. -/
def perform (s : Finset (BitVec 32)) (p : BreakpointPacket) : Finset (BitVec 32) :=
  edit inserts key s p

/-- What the code answers. -/
def reply (p : BreakpointPacket) : List Char :=
  match p.command with
  | .z0 => []
  | .Z0 | .Z1 | .z1 => "OK".toList

end BreakpointPacket

/-- The packets as they are received, one at a time. -/
def received (packets : List BreakpointPacket) : List (Option (List Char)) :=
  packets.map fun p => some (packet p.text)

/-- An address has been inserted with some type and not been removed with that type since. -/
def live (packets : List BreakpointPacket) (addr : BitVec 64) : Bool :=
  lastInserts BreakpointPacket.inserts (fun p => p.addr = addr ∧ p.type = 0) false packets ||
    lastInserts BreakpointPacket.inserts (fun p => p.addr = addr ∧ p.type = 1) false packets

/-- The last packet with that key inserts it. -/
def keyHeld (packets : List BreakpointPacket) (k : BitVec 32) : Bool :=
  lastInserts BreakpointPacket.inserts (fun p => p.key = k) false packets

/-- A call of `CPU_step` on the CPU alone. -/
def stepCpu (cpu : System T) : Except DebugFault (System T × Bool) :=
  match cpuStep.run cpu with
  | .ok bkpt cpu => .ok (cpu, bkpt)
  | .error e _ => .error (.fault e)

/-- A step after which the CPU is to stop: one that returned true, or to a breakpoint. -/
def due (at' : BitVec T.xlen → Bool) (r : System T × Bool) : Bool := r.2 || at' r.1.regs.getPC

/-- The CPU after a packet `c`, if it stops within `fuel` steps, and what is sent. -/
def continued (d : Debug T) (fuel : ℕ) : Except DebugFault (Option (System T × List (List Char))) :=
  (d.handleGdbLoop fuel [some (packet ['c'])]).map (Option.map fun r => (r.1.cpu, r.2))

/-- A CPU that stops after the first step that is due, and no other. -/
def stopped (at' : BitVec T.xlen → Bool) (cpu : System T) (fuel : ℕ) :
    Except DebugFault (Option (System T × List (List Char))) :=
  (runUntil stepCpu Prod.fst (due at') fuel cpu).map
    (Option.map fun r => (r.1, [frame "S05".toList]))

/-- The packets are answered `OK` exactly when they are performed, and a `c` after them stops where
a breakpoint is live. -/
structure BreakpointsFollow (d : Debug T) (packets : List BreakpointPacket) : Prop where
  answered : ∀ before p after, packets = before ++ p :: after → ∃ d₁ d₂ frames f,
    d.handleGdbLoop 0 (received before) = .ok (some (d₁, frames)) ∧
    d₁.handleGdbLoop 0 (received [p]) = .ok (some (d₂, [f])) ∧
    (f = frame "OK".toList ↔ d₂.breakpoints = p.perform d₁.breakpoints)
  stops : ∃ d₁ frames, d.handleGdbLoop 0 (received packets) = .ok (some (d₁, frames)) ∧
    ∀ fuel, d₁.continued fuel = stopped (fun pc => live packets (pc.setWidth 64)) d₁.cpu fuel

/-- No packet is a `z0`, and wherever the PC comes on the way to the stop that is due, the last
packet with its key inserts exactly if it is live. -/
def BreakpointsAgree (d : Debug T) (packets : List BreakpointPacket) : Prop :=
  (∀ p ∈ packets, p.command ≠ .z0) ∧
  ∀ r, Visited stepCpu Prod.fst (due fun pc => live packets (pc.setWidth 64)) d.cpu r →
    r.2 = false →
      keyHeld packets (r.1.regs.getPC.setWidth 32) = live packets (r.1.regs.getPC.setWidth 64)

/-! ## A packet -/

variable {p : BreakpointPacket} {packets : List BreakpointPacket}

theorem not_mem_text {c : Char} (hc : digit c = none) (hcomma : c ≠ ',') (hZ : c ≠ 'Z')
    (hz : c ≠ 'z') : c ∉ p.text := by
  have hname : c ∉ p.command.name := by
    intro h
    have hdigit : c ≠ '0' ∧ c ≠ '1' := by
      constructor <;> rintro rfl <;> cases hc
    cases hp : p.command <;> rw [hp] at h <;>
      simp [BreakpointCommand.name, hZ, hz, hdigit.1, hdigit.2] at h
  intro h
  rcases List.mem_append.mp h with h | h
  · exact hname h
  · rcases List.mem_cons.mp h with h | h
    · exact hcomma h
    · rcases List.mem_append.mp h with h | h
      · exact not_mem_of_digit digit_of_mem_toDigits hc h
      · rcases List.mem_cons.mp h with h | h
        · exact hcomma h
        · exact not_mem_of_digit digit_of_mem_toDigits hc h

theorem length_toDigits_le (x : BitVec 64) : (Nat.toDigits 16 x.toNat).length ≤ 16 :=
  (Nat.length_toDigits_le_iff (by decide) (by decide)).mpr x.isLt

theorem length_text_le (p : BreakpointPacket) : p.text.length + 4 ≤ bufsize := by
  have hname : p.command.name.length = 2 := by cases p.command <;> rfl
  have haddr := length_toDigits_le p.addr
  have hkind := length_toDigits_le p.kind
  simp only [BreakpointPacket.text, List.length_append, List.length_cons, bufsize, hname]
  omega

theorem receivePacket_text (iobuf : Iobuf) (p : BreakpointPacket) :
    receivePacket iobuf (some (packet p.text)) = .ok (iobuf.write (packet p.text), p.text) :=
  receivePacket_packet iobuf (length_text_le p)
    (not_mem_text (by decide) (by decide) (by decide) (by decide))
    (not_mem_text (by decide) (by decide) (by decide) (by decide))

theorem breakpointAddress_text (p : BreakpointPacket) : breakpointAddress p.text = .ok p.key := by
  have hends : Ends (',' :: Nat.toDigits 16 p.kind.toNat) := ends_cons (by decide) _
  have hdrop : suffixFrom p.text 3 =
      .ok (Nat.toDigits 16 p.addr.toNat ++ ',' :: Nat.toDigits 16 p.kind.toNat) := by
    have hlen : 3 ≤ p.text.length := by
      unfold BreakpointPacket.text
      cases p.command <;> exact Nat.le_add_left 3 _
    rw [suffixFrom, if_pos hlen]
    unfold BreakpointPacket.text
    cases p.command <;> rfl
  unfold breakpointAddress
  rw [hdrop]
  show Except.ok _ = _
  rw [toLong_toDigits _ hends]
  rfl

theorem handleMessage_text (fuel : ℕ) (d : Debug T) (p : BreakpointPacket) :
    handleMessage fuel d p.text = .ok (some (answer
      { d with breakpoints := p.perform d.breakpoints } p.reply)) := by
  have haddr := breakpointAddress_text p
  obtain ⟨command, addr, kind⟩ := p
  have hm : handleMessage fuel d (BreakpointPacket.text ⟨command, addr, kind⟩) =
      some <$> (match command with
        | .Z0 | .Z1 => d.insertBreakpoint (BreakpointPacket.text ⟨command, addr, kind⟩)
        | .z0 => d.eraseBreakpoint (BreakpointPacket.text ⟨command, addr, kind⟩) []
        | .z1 => d.eraseBreakpoint (BreakpointPacket.text ⟨command, addr, kind⟩) "OK".toList) := by
    cases command <;> simp [BreakpointPacket.text, BreakpointCommand.name, handleMessage]
  rw [hm]
  cases command <;> simp only [insertBreakpoint, eraseBreakpoint, haddr] <;> rfl

/-! ## A sequence of packets -/

theorem handleGdbLoop_received (fuel : ℕ) (d : Debug T) (packets : List BreakpointPacket) :
    ∃ iobuf, d.handleGdbLoop fuel (received packets) = .ok (some
      ({ d with
        iobuf := iobuf
        breakpoints := packets.foldl BreakpointPacket.perform d.breakpoints },
        packets.map fun p => frame p.reply)) := by
  induction packets generalizing d with
  | nil => exact ⟨d.iobuf, rfl⟩
  | cons p packets ih =>
    have hfit : p.reply.length + 5 ≤ bufsize := by
      unfold BreakpointPacket.reply
      cases p.command <;> decide
    obtain ⟨iobuf, hrest⟩ := ih { d with
      iobuf := (d.iobuf.write (packet p.text)).write (frame p.reply)
      breakpoints := p.perform d.breakpoints }
    exact ⟨iobuf, handleGdbLoop_answer (receivePacket_text d.iobuf p)
      (handleMessage_text fuel { d with iobuf := d.iobuf.write (packet p.text) } p)
      (sendPacket_eq _ hfit) hrest⟩

theorem mem_foldl_perform (k : BitVec 32) (packets : List BreakpointPacket) :
    k ∈ packets.foldl BreakpointPacket.perform ∅ ↔ keyHeld packets k = true :=
  mem_foldl_edit packets

/-! ## The loop of `c` -/

theorem callStep_eq (d : Debug T) :
    d.callStep = (stepCpu d.cpu).map fun r => ({ d with cpu := r.1 }, r.2) := by
  unfold callStep stepCpu
  cases cpuStep.run d.cpu <;> rfl

/-- The loop stops by the keys of its set. -/
theorem continueLoop_eq (d : Debug T) (fuel : ℕ) : d.continueLoop fuel =
    (runUntil stepCpu Prod.fst (due fun pc => pc.setWidth 32 ∈ d.breakpoints) fuel d.cpu).map
      (Option.map fun r => { d with cpu := r.1 }) := by
  induction fuel generalizing d with
  | zero => rfl
  | succ fuel ih =>
    unfold continueLoop continueTurn
    rw [callStep_eq]
    cases hs : stepCpu d.cpu with
    | error e =>
      rw [runUntil_error hs]
      rfl
    | ok r =>
      cases hstop : due (fun pc => pc.setWidth 32 ∈ d.breakpoints) r with
      | true =>
        rw [runUntil_stop hs hstop]
        have hgo : (!atBreakpoint { d with cpu := r.1 } && !r.2) = false := by
          rw [← Bool.not_or, Bool.or_comm]
          exact congrArg (!·) hstop
        simp only [Except.map, bind, Except.bind, pure, Except.pure, hgo]
        rfl
      | false =>
        rw [runUntil_goOn hs hstop]
        have hgo : (!atBreakpoint { d with cpu := r.1 } && !r.2) = true := by
          rw [← Bool.not_or, Bool.or_comm]
          exact congrArg (!·) hstop
        simp only [Except.map, bind, Except.bind, pure, Except.pure, hgo]
        exact ih { d with cpu := r.1 }

theorem handleMessage_c (fuel : ℕ) (d : Debug T) : handleMessage fuel d ['c'] =
    (·.map fun d => d.answer "S05".toList) <$> d.continueLoop fuel := by
  simp [handleMessage]

/-- A `c` stops the CPU by the keys. -/
theorem continued_eq (d : Debug T) (fuel : ℕ) :
    d.continued fuel = stopped (fun pc => pc.setWidth 32 ∈ d.breakpoints) d.cpu fuel := by
  have hr : receivePacket d.iobuf (some (packet ['c'])) =
      .ok (d.iobuf.write (packet ['c']), ['c']) :=
    receivePacket_packet d.iobuf (by decide) (by decide) (by decide)
  have hs (iobuf : Iobuf) : sendPacket iobuf "S05".toList = .ok (iobuf.write _, _) :=
    sendPacket_eq iobuf (by decide)
  unfold continued stopped
  simp only [handleGdbLoop, hr, handleMessage_c, continueLoop_eq, bind, Except.bind]
  cases runUntil stepCpu Prod.fst (due fun pc => pc.setWidth 32 ∈ d.breakpoints) fuel d.cpu with
  | error e => rfl
  | ok r =>
    cases r with
    | none => rfl
    | some r =>
      simp only [Except.map, Functor.map, Option.map, answer, hs, pure, Except.pure]
      rfl

/-! ## The packets and the loop -/

theorem frame_reply_eq_iff (p : BreakpointPacket) :
    frame p.reply = frame "OK".toList ↔ p.command ≠ .z0 := by
  unfold BreakpointPacket.reply
  cases p.command with
  | z0 => exact iff_of_false (by decide) (by decide)
  | Z0 | Z1 | z1 => exact iff_of_true rfl (by decide)

/-- A `z0` is performed and not answered `OK`. -/
theorem answered_iff (d : Debug T) (packets : List BreakpointPacket) :
    (∀ before p after, packets = before ++ p :: after → ∃ d₁ d₂ frames f,
      d.handleGdbLoop 0 (received before) = .ok (some (d₁, frames)) ∧
      d₁.handleGdbLoop 0 (received [p]) = .ok (some (d₂, [f])) ∧
      (f = frame "OK".toList ↔ d₂.breakpoints = p.perform d₁.breakpoints)) ↔
    ∀ p ∈ packets, p.command ≠ .z0 := by
  constructor
  · intro h p hp
    obtain ⟨before, after, rfl⟩ := List.append_of_mem hp
    obtain ⟨d₁, d₂, frames, f, -, hd₂, hf⟩ := h before p after rfl
    obtain ⟨iobuf, hp⟩ := handleGdbLoop_received 0 d₁ [p]
    cases hp.symm.trans hd₂
    exact (frame_reply_eq_iff p).mp (hf.mpr rfl)
  · rintro h before p after rfl
    obtain ⟨iobuf, hbefore⟩ := handleGdbLoop_received 0 d before
    obtain ⟨iobuf', hp⟩ := handleGdbLoop_received 0 { d with
      iobuf := iobuf
      breakpoints := before.foldl BreakpointPacket.perform d.breakpoints } [p]
    refine ⟨_, _, _, _, hbefore, hp, iff_of_true ?_ rfl⟩
    exact (frame_reply_eq_iff p).mpr (h p (List.mem_append_right _ List.mem_cons_self))

/-- Two exits by the PC are due at the same steps when they agree where no flag stops before. -/
theorem stopped_eq_iff (keys : BitVec T.xlen → Bool) {at' : BitVec T.xlen → Bool} {cpu : System T} :
    (∀ fuel, stopped keys cpu fuel = stopped at' cpu fuel) ↔
      ∀ r, Visited stepCpu Prod.fst (due at') cpu r → r.2 = false →
        keys r.1.regs.getPC = at' r.1.regs.getPC := by
  refine (runUntil_map_eq_iff _).trans (forall₂_congr fun r _ => ?_)
  unfold due
  cases r.2 with
  | true => exact iff_of_true rfl (nomatch ·)
  | false => simp

theorem stops_iff (h : d.breakpoints = ∅) :
    (∃ d₁ frames, d.handleGdbLoop 0 (received packets) = .ok (some (d₁, frames)) ∧
      ∀ fuel, d₁.continued fuel =
        stopped (fun pc => live packets (pc.setWidth 64)) d₁.cpu fuel) ↔
    ∀ r, Visited stepCpu Prod.fst (due fun pc => live packets (pc.setWidth 64)) d.cpu r →
      r.2 = false →
        keyHeld packets (r.1.regs.getPC.setWidth 32) =
          live packets (r.1.regs.getPC.setWidth 64) := by
  obtain ⟨iobuf, hd⟩ := handleGdbLoop_received 0 d packets
  have hkeys (k : BitVec 32) :
      decide (k ∈ packets.foldl BreakpointPacket.perform d.breakpoints) = keyHeld packets k := by
    rw [h, Bool.eq_iff_iff, decide_eq_true_iff, mem_foldl_perform]
  refine Iff.trans ?_ (stopped_eq_iff (fun pc => keyHeld packets (pc.setWidth 32)))
  constructor
  · rintro ⟨d₁, frames, hd₁, hall⟩ fuel
    cases hd.symm.trans hd₁
    rw [← hall fuel, continued_eq]
    simp only [hkeys]
  · intro hall
    refine ⟨_, _, hd, fun fuel => ?_⟩
    rw [continued_eq]
    simp only [hkeys]
    exact hall fuel

/-- From a debugger without breakpoints, the packets are followed exactly when none is a `z0` and
the keys agree with what is live, wherever the PC comes. -/
theorem breakpointsFollow_iff (h : d.breakpoints = ∅) :
    BreakpointsFollow d packets ↔ BreakpointsAgree d packets := by
  constructor
  · rintro ⟨hanswered, hstops⟩
    exact ⟨(answered_iff d packets).mp hanswered, (stops_iff h).mp hstops⟩
  · rintro ⟨hz, hagree⟩
    exact ⟨(answered_iff d packets).mpr hz, (stops_iff h).mpr hagree⟩

/-! ## Plain packets -/

/-- No `z0`, addresses of 32 bits, and one type for each address. -/
structure Plain (packets : List BreakpointPacket) : Prop where
  command : ∀ p ∈ packets, p.command ≠ .z0
  addr : ∀ p ∈ packets, p.addr.toNat < 2 ^ 32
  type : ∀ p ∈ packets, ∀ q ∈ packets, p.addr = q.addr → p.type = q.type

theorem type_eq_zero_or_one (p : BreakpointPacket) : p.type = 0 ∨ p.type = 1 := by
  unfold BreakpointPacket.type
  cases p.command with
  | Z0 | z0 => exact .inl rfl
  | Z1 | z1 => exact .inr rfl

/-- The key of an address of 32 bits is its low word. -/
theorem key_eq_iff (h : p.addr.toNat < 2 ^ 32) (pc : BitVec 32) :
    p.key = pc ↔ p.addr = pc.setWidth 64 := by
  have hkey : p.key.toNat = p.addr.toNat := by
    have hmin : min (2 ^ 63 - 1) (p.addr.toNat : ℤ) = p.addr.toNat := min_eq_right (by omega)
    rw [BreakpointPacket.key, hmin, BitVec.ofInt_natCast, BitVec.toNat_ofNat, Nat.mod_eq_of_lt h]
  rw [← BitVec.toNat_inj, ← BitVec.toNat_inj, hkey, BitVec.toNat_setWidth_of_le (by decide)]

/-- The last packet with the key of a live address is one that inserts it. -/
theorem keyHeld_eq_live (h : Plain packets) (pc : BitVec 32) :
    keyHeld packets pc = live packets (pc.setWidth 64) := by
  have hkey (p : BreakpointPacket) (hp : p ∈ packets) :
      decide (p.key = pc) = decide (p.addr = pc.setWidth 64) :=
    decide_eq_decide.mpr (key_eq_iff (h.addr p hp) pc)
  unfold keyHeld live
  rw [lastInserts_congr hkey]
  -- all packets of the address have the type of one of them
  by_cases hz : ∃ p ∈ packets, p.addr = pc.setWidth 64 ∧ p.type = 0
  · obtain ⟨p, hp, ha, ht⟩ := hz
    have htype (q : BreakpointPacket) (hq : q ∈ packets) (hqa : q.addr = pc.setWidth 64) :
        q.type = 0 := (h.type q hq p hp (hqa.trans ha.symm)).trans ht
    have h0 : ∀ q ∈ packets, decide (q.addr = pc.setWidth 64 ∧ q.type = 0) =
        decide (q.addr = pc.setWidth 64) := fun q hq =>
      decide_eq_decide.mpr (and_iff_left_of_imp (htype q hq))
    have h1 : ∀ q ∈ packets, decide (q.addr = pc.setWidth 64 ∧ q.type = 1) = false := by
      intro q hq
      refine decide_eq_false fun hq1 => ?_
      rw [htype q hq hq1.1] at hq1
      exact absurd hq1.2 (by decide)
    rw [lastInserts_congr h0, lastInserts_of_forall_not h1, Bool.or_false]
  · have h0 : ∀ q ∈ packets, decide (q.addr = pc.setWidth 64 ∧ q.type = 0) = false :=
      fun q hq => decide_eq_false fun hq0 => hz ⟨q, hq, hq0⟩
    have h1 : ∀ q ∈ packets, decide (q.addr = pc.setWidth 64 ∧ q.type = 1) =
        decide (q.addr = pc.setWidth 64) := fun q hq =>
      decide_eq_decide.mpr (and_iff_left_of_imp fun hqa =>
        (type_eq_zero_or_one q).resolve_left fun ht => hz ⟨q, hq, hqa, ht⟩)
    rw [lastInserts_of_forall_not h0, lastInserts_congr h1, Bool.false_or]

/-- On RV32, plain packets agree with the keys at every PC. -/
theorem breakpointsAgree_of_plain (d : Debug .RV32) (h : Plain packets) :
    BreakpointsAgree d packets := by
  refine ⟨h.command, fun r _ _ => ?_⟩
  have hpc : r.1.regs.getPC.setWidth 32 = r.1.regs.getPC := BitVec.setWidth_eq _
  rw [keyHeld_eq_live h, hpc]

/-- An endless loop at a breakpoint that is inserted after one that is removed again. -/
theorem breakpointsFollow_loop : BreakpointsFollow (connected (start .RV64 [0x0000006F]))
    [⟨.Z1, 0x10, 4⟩, ⟨.Z0, 0, 4⟩, ⟨.z1, 0x10, 4⟩] := by
  refine (breakpointsFollow_iff rfl).mpr ⟨by decide, fun r hv _ => ?_⟩
  have hs : stepCpu (start .RV64 [0x0000006F]) = .ok (_, false) := rfl
  obtain rfl := hv.eq_of_stop hs (by decide)
  decide

/-- A `z0`; an address beyond 32 bits in front of a loop at its low word; and two types at one
address, one of them removed. -/
theorem not_breakpointsFollow :
    ¬BreakpointsFollow (connected (start .RV32 [0x0000006F])) [⟨.z0, 0, 4⟩] ∧
    ¬BreakpointsFollow (connected (start .RV64 [0x0000006F])) [⟨.Z0, 0x100000000, 4⟩] ∧
    ¬BreakpointsFollow (connected (start .RV32 [0x0000006F]))
      [⟨.Z0, 0, 4⟩, ⟨.Z1, 0, 4⟩, ⟨.z1, 0, 4⟩] := by
  refine ⟨fun h => ?_, fun h => ?_, fun h => ?_⟩
  · exact (answered_iff _ _).mp h.answered _ List.mem_cons_self rfl
  · have hs : stepCpu (start .RV64 [0x0000006F]) = .ok (_, false) := rfl
    exact absurd ((stops_iff rfl).mp h.stops _ (.here hs) rfl) (by decide)
  · have hs : stepCpu (start .RV32 [0x0000006F]) = .ok (_, false) := rfl
    exact absurd ((stops_iff rfl).mp h.stops _ (.here hs) rfl) (by decide)

end RiscvTlm.Debug
