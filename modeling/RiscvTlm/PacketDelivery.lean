import RiscvTlm.PacketStream

/-!
# Delivery of packets

What `handle_gdb_loop` gets of a stream of packets that arrives in chunks, whatever the buffer holds
before each of them. `receive_packet` takes one message from a chunk and nothing over to the next
one, and the loop receives nothing behind a message that it ends with, so that the messages are the
payloads exactly when each chunk of more than one character holds one packet up to its `#` and the
loop goes on behind each payload but the last.
-/

namespace RiscvTlm.Debug

open CString

variable {T : CpuType}

/-! ## The messages of the loop -/

/-- What the loop does with a message: the stub after it, the frames sent, and whether the loop
goes on. -/
def loopTurn (fuel : ℕ) (d : Debug T) (msg : List Char) :
    Except DebugFault (Option (Debug T × List (List Char) × Bool)) := do
  match ← handleMessage fuel d msg with
  | none => return none
  | some a =>
    match a.reply with
    | some reply =>
      let (iobuf, frame) ← sendPacket a.debug.iobuf reply
      return some ({ a.debug with iobuf }, [frame], a.goOn)
    | none => return some (a.debug, [], a.goOn)

/-- What the calls of `receive_packet` in `handle_gdb_loop` return, and what the loop does. -/
structure LoopRun (T : CpuType) where
  messages : List (Except DebugFault (List Char))
  result : Except DebugFault (Option (Debug T × List (List Char)))

/-- `handle_gdb_loop` on the chunks that `recv` returns. A call finds the buffer as the loop has
left it, or with other old contents. -/
def loopRun (fuel : ℕ) : Debug T → List (Option Iobuf × List Char) → LoopRun T
  | d, [] => ⟨[], .ok (some (d, []))⟩
  | d, x :: calls =>
    match receivePacket (x.1.getD d.iobuf) (some x.2) with
    | .error e => ⟨[.error e], .error e⟩
    | .ok (iobuf, msg) =>
      match loopTurn fuel { d with iobuf } msg with
      | .ok (some (d, frames, true)) =>
        let run := loopRun fuel d calls
        ⟨.ok msg :: run.messages, Option.map (Prod.map id (frames ++ ·)) <$> run.result⟩
      | .ok (some (d, frames, false)) => ⟨[.ok msg], .ok (some (d, frames))⟩
      | .ok none => ⟨[.ok msg], .ok none⟩
      | .error e => ⟨[.ok msg], .error e⟩

/-- A turn of `handle_gdb_loop`. -/
theorem handleGdbLoop_cons (fuel : ℕ) (d : Debug T) (received : Option (List Char))
    (rest : List (Option (List Char))) :
    handleGdbLoop fuel d (received :: rest) = (do
      let (iobuf, msg) ← receivePacket d.iobuf received
      match ← loopTurn fuel { d with iobuf } msg with
      | none => return none
      | some (d, frames, true) =>
        return (← handleGdbLoop fuel d rest).map (Prod.map id (frames ++ ·))
      | some (d, frames, false) => return some (d, frames)) := by
  rw [handleGdbLoop]
  refine bind_congr fun r => ?_
  obtain ⟨iobuf, msg⟩ := r
  simp only [loopTurn, bind_assoc]
  refine bind_congr fun o => ?_
  cases o with
  | none => rfl
  | some a =>
    obtain ⟨d, reply, goOn⟩ := a
    -- a reply or none, and the next message or none
    cases reply with
    | none =>
      cases goOn with
      | true =>
        show handleGdbLoop fuel d rest >>= _ = handleGdbLoop fuel d rest >>= _
        exact bind_congr fun r => by cases r <;> rfl
      | false => rfl
    | some reply =>
      simp only [bind_assoc]
      refine bind_congr fun sent => ?_
      cases goOn with
      | true =>
        show handleGdbLoop fuel { d with iobuf := sent.1 } rest >>= _ =
          handleGdbLoop fuel { d with iobuf := sent.1 } rest >>= _
        exact bind_congr fun r => by cases r <;> rfl
      | false => rfl

/-- With the buffer as the loop leaves it, this is `handle_gdb_loop`. -/
theorem result_loopRun (fuel : ℕ) (d : Debug T) (chunks : List (List Char)) :
    (loopRun fuel d (chunks.map fun c => (none, c))).result =
      handleGdbLoop fuel d (chunks.map some) := by
  induction chunks generalizing d with
  | nil => rfl
  | cons chunk chunks ih =>
    rw [List.map_cons, List.map_cons, handleGdbLoop_cons]
    cases hr : receivePacket d.iobuf (some chunk) with
    | error e =>
      simp only [loopRun, Option.getD_none, hr]
      rfl
    | ok r =>
      cases ht : loopTurn fuel { d with iobuf := r.1 } r.2 with
      | error e =>
        simp only [loopRun, Option.getD_none, hr, ht, bind, Except.bind]
      | ok o =>
        rcases o with _ | ⟨d', frames, _ | _⟩
        · simp only [loopRun, Option.getD_none, hr, ht, bind, Except.bind]
          rfl
        · simp only [loopRun, Option.getD_none, hr, ht, bind, Except.bind]
          rfl
        · simp only [loopRun, Option.getD_none, hr, ht, bind, Except.bind, ih]
          rfl

/-- The stub behind a message, if the loop goes on. -/
def afterMessage (fuel : ℕ) (d : Debug T) (msg : List Char) : Option (Debug T) :=
  match loopTurn fuel d msg with
  | .ok (some (d, _, true)) => some d
  | _ => none

/-- The stub behind messages, if the loop goes on behind each of them. -/
def afterMessages (fuel : ℕ) (d : Debug T) (msgs : List (List Char)) : Option (Debug T) :=
  msgs.foldlM (afterMessage fuel) d

/-- The loop goes on behind all of the messages. -/
def GoesOnBehind (fuel : ℕ) (d : Debug T) (msgs : List (List Char)) : Prop :=
  (afterMessages fuel d msgs).isSome

instance GoesOnBehind.decidable (fuel : ℕ) (d : Debug T) (msgs : List (List Char)) :
    Decidable (GoesOnBehind fuel d msgs) := inferInstanceAs (Decidable (_ = true))

/-- The messages but for a bare `+`. -/
def LoopRun.commands (run : LoopRun T) : List (Except DebugFault (List Char)) :=
  run.messages.filter (· ≠ .ok ['+'])

/-- Whatever the buffer holds before each call, the loop gets the payloads in their order. -/
def Delivers (fuel : ℕ) (d : Debug T) (packets : List Packet) (chunks : List (List Char)) : Prop :=
  ∀ calls : List (Option Iobuf × List Char), calls.map Prod.snd = chunks →
    (loopRun fuel d calls).commands = packets.map fun p => .ok p.payload

/-- Every chunk is aligned, but for check digits that are not received any more. -/
def AlignedUnless (ended : Prop) (chunks : List (List Char)) : Prop :=
  ∃ heard unheard, chunks = heard ++ unheard ∧ (∀ c ∈ heard, Aligned c) ∧
    (∀ c ∈ unheard, '#' ∉ c) ∧ (unheard ≠ [] → ended)

/-! ## The stub without its buffer -/

section Buffer

variable (x : Iobuf) {fuel : ℕ} {d : Debug T} {msg : List Char}

def withBuffer (d : Debug T) (x : Iobuf) : Debug T := { d with iobuf := x }

def Answer.withBuffer (a : Answer T) (x : Iobuf) : Answer T :=
  { a with debug := a.debug.withBuffer x }

theorem callStep_withBuffer (d : Debug T) :
    (d.withBuffer x).callStep = Prod.map (·.withBuffer x) id <$> d.callStep := by
  unfold callStep withBuffer
  cases cpuStep.run d.cpu <;> rfl

theorem continueLoop_withBuffer (fuel : ℕ) (d : Debug T) :
    (d.withBuffer x).continueLoop fuel = Option.map (·.withBuffer x) <$> d.continueLoop fuel := by
  induction fuel generalizing d with
  | zero => rfl
  | succ fuel ih =>
    simp only [continueLoop, continueTurn, callStep_withBuffer]
    cases d.callStep with
    | error e => rfl
    | ok r =>
      show (if !r.1.atBreakpoint && !r.2 then (r.1.withBuffer x).continueLoop fuel
          else .ok (some (r.1.withBuffer x))) =
        Option.map (·.withBuffer x) <$>
          (if !r.1.atBreakpoint && !r.2 then r.1.continueLoop fuel else .ok (some r.1))
      split
      · exact ih r.1
      · rfl

theorem singleStep_withBuffer (d : Debug T) :
    (d.withBuffer x).singleStep = (·.withBuffer x) <$> d.singleStep := by
  simp only [singleStep, callStep_withBuffer]
  cases d.callStep <;> rfl

theorem readRegister_withBuffer (d : Debug T) (msg : List Char) :
    (d.withBuffer x).readRegister msg = (·.withBuffer x) <$> d.readRegister msg := by
  unfold readRegister
  rw [map_bind]
  exact bind_congr fun text => by cases T <;> rfl

theorem writeRegister_withBuffer (d : Debug T) (msg : List Char) :
    (d.withBuffer x).writeRegister msg = (·.withBuffer x) <$> d.writeRegister msg := by
  unfold writeRegister
  rw [map_bind]
  refine bind_congr fun text => ?_
  generalize toLong text = r
  dsimp only
  rw [map_bind]
  exact bind_congr fun text => rfl

theorem readMemory_withBuffer (d : Debug T) (msg : List Char) :
    (d.withBuffer x).readMemory msg = (·.withBuffer x) <$> d.readMemory msg := by
  unfold readMemory
  rw [map_bind]
  refine bind_congr fun text => ?_
  generalize toLong text = r
  dsimp only
  rw [map_bind]
  refine bind_congr fun text => ?_
  dsimp only [withBuffer]
  cases d.cpu.bus.memory.transportDbg _ with
  | error e => rfl
  | ok r =>
    dsimp only
    split <;> rfl

theorem insertBreakpoint_withBuffer (d : Debug T) (msg : List Char) :
    (d.withBuffer x).insertBreakpoint msg = (·.withBuffer x) <$> d.insertBreakpoint msg := by
  unfold insertBreakpoint
  cases breakpointAddress msg <;> rfl

theorem eraseBreakpoint_withBuffer (d : Debug T) (msg reply : List Char) :
    (d.withBuffer x).eraseBreakpoint msg reply =
      (·.withBuffer x) <$> d.eraseBreakpoint msg reply := by
  unfold eraseBreakpoint
  cases breakpointAddress msg <;> rfl

theorem ite_withBuffer {p : Prop} [Decidable p]
    {a b a' b' : Except DebugFault (Option (Answer T))}
    (ha : a = Option.map (·.withBuffer x) <$> a') (hb : b = Option.map (·.withBuffer x) <$> b') :
    (if p then a else b) = Option.map (·.withBuffer x) <$> (if p then a' else b') := by
  split
  · exact ha
  · exact hb

theorem some_withBuffer {a a' : Except DebugFault (Answer T)} (h : a = (·.withBuffer x) <$> a') :
    some <$> a = Option.map (·.withBuffer x) <$> some <$> a' := by
  subst h
  cases a' <;> rfl

theorem continue_withBuffer (fuel : ℕ) (d : Debug T) (reply : List Char) :
    (·.map fun d => d.answer reply) <$> (d.withBuffer x).continueLoop fuel =
      Option.map (·.withBuffer x) <$> (·.map fun d => d.answer reply) <$> d.continueLoop fuel := by
  rw [continueLoop_withBuffer]
  rcases d.continueLoop fuel with e | _ | d' <;> rfl

/-- The commands do not look at the buffer. -/
theorem handleMessage_withBuffer (fuel : ℕ) (d : Debug T) (msg : List Char) :
    handleMessage fuel (d.withBuffer x) msg =
      Option.map (·.withBuffer x) <$> handleMessage fuel d msg := by
  have hg : (d.withBuffer x).readRegisters = d.readRegisters := by cases T <;> rfl
  unfold handleMessage
  dsimp only
  rw [hg]
  repeat' refine ite_withBuffer x ?_ ?_
  all_goals first
    | rfl
    | exact some_withBuffer x (readRegister_withBuffer x d msg)
    | exact some_withBuffer x (writeRegister_withBuffer x d msg)
    | exact some_withBuffer x (readMemory_withBuffer x d msg)
    | exact some_withBuffer x (singleStep_withBuffer x d)
    | exact some_withBuffer x (insertBreakpoint_withBuffer x d msg)
    | exact some_withBuffer x (eraseBreakpoint_withBuffer x d msg _)
    | exact continue_withBuffer x fuel d _

/-- What the loop does with a message does not depend on the buffer. -/
theorem afterMessage_withBuffer (fuel : ℕ) (d : Debug T) (msg : List Char) :
    ∃ y, afterMessage fuel (d.withBuffer x) msg =
      (afterMessage fuel d msg).map (·.withBuffer y) := by
  unfold afterMessage loopTurn
  rw [handleMessage_withBuffer]
  rcases handleMessage fuel d msg with e | _ | ⟨d', reply, goOn⟩
  · exact ⟨x, rfl⟩
  · exact ⟨x, rfl⟩
  cases reply with
  | none => cases goOn <;> exact ⟨x, rfl⟩
  | some reply =>
    generalize hf : ['+', '$'] ++ reply ++ ['#'] ++ computeChecksumString reply = frame
    by_cases hfit : frame.length ≤ bufsize
    · have hs (iobuf : Iobuf) : sendPacket iobuf reply = .ok (iobuf.write frame, frame) := by
        rw [sendPacket, hf, if_pos hfit]
      refine ⟨x.write frame, ?_⟩
      simp only [Functor.map, Except.map, Option.map, bind, Except.bind, pure, Except.pure, hs,
        Answer.withBuffer, withBuffer]
      cases goOn <;> rfl
    · have hs (iobuf : Iobuf) :
          sendPacket iobuf reply = .error (.fault .undefinedBehaviour) := by
        rw [sendPacket, hf, if_neg hfit]
      refine ⟨x, ?_⟩
      simp only [Functor.map, Except.map, Option.map, bind, Except.bind, hs, Answer.withBuffer,
        withBuffer]

theorem afterMessages_withBuffer (fuel : ℕ) (d : Debug T) (msgs : List (List Char)) :
    ∃ y, afterMessages fuel (d.withBuffer x) msgs =
      (afterMessages fuel d msgs).map (·.withBuffer y) := by
  induction msgs generalizing d x with
  | nil => exact ⟨x, rfl⟩
  | cons msg msgs ih =>
    obtain ⟨y, hy⟩ := afterMessage_withBuffer x fuel d msg
    simp only [afterMessages, List.foldlM_cons, hy]
    cases afterMessage fuel d msg with
    | none => exact ⟨x, rfl⟩
    | some d' => exact ih y d'

theorem goesOnBehind_withBuffer (fuel : ℕ) (d : Debug T) (msgs : List (List Char)) :
    GoesOnBehind fuel (d.withBuffer x) msgs ↔ GoesOnBehind fuel d msgs := by
  obtain ⟨y, hy⟩ := afterMessages_withBuffer x fuel d msgs
  rw [GoesOnBehind, GoesOnBehind, hy, Option.isSome_map]

end Buffer

/-! ## A call of the loop -/

section Calls

variable {fuel : ℕ} {d : Debug T} {x : Option Iobuf × List Char}
  {calls : List (Option Iobuf × List Char)} {iobuf' : Iobuf} {msg : List Char} {e : DebugFault}
  {msgs : List (List Char)}

theorem goesOnBehind_cons : GoesOnBehind fuel d (msg :: msgs) ↔
    ∃ d', afterMessage fuel d msg = some d' ∧ GoesOnBehind fuel d' msgs := by
  rw [GoesOnBehind, afterMessages, List.foldlM_cons]
  cases afterMessage fuel d msg with
  | none => exact iff_of_false Bool.false_ne_true fun ⟨_, h, _⟩ => by cases h
  | some d' =>
    constructor
    · exact fun h => ⟨d', rfl, h⟩
    · rintro ⟨_, he, h⟩
      cases he
      exact h

theorem messages_ok (hr : receivePacket (x.1.getD d.iobuf) (some x.2) = .ok (iobuf', msg)) :
    (loopRun fuel d (x :: calls)).messages = .ok msg ::
      (afterMessage fuel (d.withBuffer iobuf') msg).elim []
        fun d => (loopRun fuel d calls).messages := by
  rw [loopRun, hr, afterMessage, withBuffer]
  dsimp only
  rcases loopTurn fuel { d with iobuf := iobuf' } msg with _ | _ | ⟨d', frames, _ | _⟩ <;> rfl

theorem commands_error (hr : receivePacket (x.1.getD d.iobuf) (some x.2) = .error e) :
    (loopRun fuel d (x :: calls)).commands = [.error e] := by
  rw [loopRun, hr]
  rfl

theorem commands_ok (hr : receivePacket (x.1.getD d.iobuf) (some x.2) = .ok (iobuf', msg))
    (hmsg : msg ≠ ['+']) :
    (loopRun fuel d (x :: calls)).commands = .ok msg ::
      (afterMessage fuel (d.withBuffer iobuf') msg).elim []
        fun d => (loopRun fuel d calls).commands := by
  have hne : decide (Except.ok msg ≠ (.ok ['+'] : Except DebugFault (List Char))) = true :=
    decide_eq_true fun h => hmsg (Except.ok.inj h)
  rw [LoopRun.commands, messages_ok hr, List.filter_cons, if_pos hne]
  cases afterMessage fuel (d.withBuffer iobuf') msg <;> rfl

/-- A bare `+` is passed over. -/
theorem commands_plus (hr : receivePacket (x.1.getD d.iobuf) (some x.2) = .ok (iobuf', ['+'])) :
    (loopRun fuel d (x :: calls)).commands =
      (loopRun fuel (d.withBuffer iobuf') calls).commands := by
  rw [LoopRun.commands, messages_ok hr, List.filter_cons_of_neg (by decide)]
  rfl

end Calls

/-! ## Streams -/

section Streams

variable {fuel : ℕ} {d : Debug T} {calls : List (Option Iobuf × List Char)}
  {chunks heard unheard : List (List Char)} {packets : List Packet} {payloads : List (List Char)}
  {pre post msg : List Char} {c : Char}

theorem frames_eq_nil {text : Option (List Char)} {s : List Char} (h : '#' ∉ s) :
    frames text s = [] := by
  induction s generalizing text with
  | nil => cases text <;> rfl
  | cons c s ih =>
    have hs := List.not_mem_of_not_mem_cons h
    cases text with
    | none =>
      rw [frames]
      split
      · exact ih hs
      · exact ih hs
    | some text => rw [frames, if_neg (List.ne_of_not_mem_cons h).symm, ih hs]

/-- What a call returns for an aligned chunk: a `+`, or the packet that the stream has there. -/
theorem receivePacket_aligned (iobuf : Iobuf) {chunk : List Char} (hlen : chunk.length ≤ bufsize)
    (ha : Aligned chunk) (h0 : '\x00' ∉ chunk) :
    receivePacket iobuf (some chunk) = .ok (iobuf.write chunk, ['+']) ∧
        (∀ s, frames none (chunk ++ s) = frames none s) ∨
      ∃ payload, receivePacket iobuf (some chunk) = .ok (iobuf.write chunk, payload) ∧
        ∀ s, frames none (chunk ++ s) = payload :: frames none s := by
  rcases ha with ⟨c, rfl, hc⟩ | ⟨pre, payload, post, rfl, hd, hh, hpd, hph, hpost⟩
  · have hd : '$' ∉ [c] := fun h => hc (List.mem_singleton.mp h).symm
    exact .inl ⟨rfl, frames_none_append hd⟩
  · have hmark : '#' ∉ pre ++ '$' :: payload := by
      intro hm
      rcases List.mem_append.mp hm with hm | hm
      · exact hh hm
      rcases List.mem_cons.mp hm with hm | hm
      · exact absurd hm (by decide)
      · exact hph hm
    have hzero : '\x00' ∉ pre ++ '$' :: payload := by
      intro hm
      rw [← List.cons_append, ← List.append_assoc] at h0
      exact h0 (List.mem_append_left _ hm)
    refine .inr ⟨payload, receivePacket_onePacket iobuf hlen hd hmark hzero, fun s => ?_⟩
    rw [← frames_packet hd hph hpost]
    simp

/-- The loop goes on behind the first payload, unless there is no other one. -/
theorem afterMessage_of_goesOnBehind (hgo : GoesOnBehind fuel d (msg :: payloads).dropLast) :
    payloads = [] ∧ afterMessage fuel d msg = none ∨
      ∃ d', afterMessage fuel d msg = some d' ∧ GoesOnBehind fuel d' payloads.dropLast := by
  cases payloads with
  | nil =>
    cases ha : afterMessage fuel d msg with
    | none => exact .inl ⟨rfl, rfl⟩
    | some d' => exact .inr ⟨d', rfl, rfl⟩
  | cons p payloads =>
    rw [List.dropLast_cons_of_ne_nil (List.cons_ne_nil p payloads), goesOnBehind_cons] at hgo
    exact .inr hgo

/-- Aligned chunks deliver what the stream holds, with any buffers. -/
theorem commands_of_aligned (hcalls : calls.map Prod.snd = heard ++ unheard)
    (h : ∀ c ∈ heard, c.length ≤ bufsize ∧ Aligned c ∧ '\x00' ∉ c) (hun : ∀ c ∈ unheard, '#' ∉ c)
    (hs : frames none (heard ++ unheard).flatten = payloads) (hplus : ['+'] ∉ payloads)
    (hgo : GoesOnBehind fuel d payloads.dropLast)
    (hend : unheard ≠ [] → ¬GoesOnBehind fuel d payloads) :
    (loopRun fuel d calls).commands = payloads.map .ok := by
  induction heard generalizing d calls payloads with
  | nil =>
    have hno : '#' ∉ unheard.flatten := fun hm => by
      obtain ⟨c, hc, hm⟩ := List.mem_flatten.mp hm
      exact hun c hc hm
    rw [List.nil_append, frames_eq_nil hno] at hs
    subst hs
    have hnil : unheard = [] := by
      by_contra hne
      exact hend hne rfl
    rw [hnil, List.append_nil, List.map_eq_nil_iff] at hcalls
    subst hcalls
    rfl
  | cons chunk heard ih =>
    obtain ⟨⟨hlen, hx, h0⟩, hheard⟩ := List.forall_mem_cons.mp h
    cases calls with
    | nil => cases hcalls
    | cons x calls =>
      obtain ⟨rfl, hrest⟩ := List.cons.inj hcalls
      rw [List.cons_append, List.flatten_cons] at hs
      rw [← goesOnBehind_withBuffer ((x.1.getD d.iobuf).write x.2)] at hgo
      have hend' : unheard ≠ [] →
          ¬GoesOnBehind fuel (d.withBuffer ((x.1.getD d.iobuf).write x.2)) payloads := by
        rwa [goesOnBehind_withBuffer]
      rcases receivePacket_aligned (x.1.getD d.iobuf) hlen hx h0 with
        ⟨hr, hf⟩ | ⟨payload, hr, hf⟩
      · rw [commands_plus hr]
        exact ih hrest hheard ((hf _).symm.trans hs) hplus hgo hend'
      · rw [hf] at hs
        subst hs
        rw [commands_ok hr (List.ne_of_not_mem_cons hplus).symm, List.map_cons]
        refine congrArg (List.cons (Except.ok payload)) ?_
        rcases afterMessage_of_goesOnBehind hgo with ⟨hnil, ha⟩ | ⟨d', ha, hgo'⟩
        · rw [ha, hnil]
          rfl
        · rw [ha]
          exact ih hrest hheard rfl (List.not_mem_of_not_mem_cons hplus) hgo'
            fun hne hg => hend' hne (goesOnBehind_cons.mpr ⟨d', ha, hg⟩)

theorem aligned_singleton (h : [c].count '$' = 0) : Aligned [c] :=
  .inl ⟨c, rfl, fun hc => List.count_eq_zero.mp h (List.mem_singleton.mpr hc.symm)⟩

theorem count_start (hd : '$' ∉ pre) (msg post : List Char) :
    (pre ++ '$' :: (msg ++ '#' :: post)).count '$' = 1 + msg.count '$' + post.count '$' := by
  rw [List.count_append, List.count_eq_zero.mpr hd, List.count_cons_self, List.count_append,
    List.count_cons_of_ne (by decide)]
  omega

theorem count_stop : 1 ≤ (pre ++ '$' :: (msg ++ '#' :: post)).count '#' := by
  rw [List.one_le_count_iff]
  simp

/-- A chunk with one `$`, before its first `#`, holds one packet. -/
theorem aligned_marks (hd : '$' ∉ pre) (hh : '#' ∉ pre ++ '$' :: msg) (post : List Char)
    (hcount : (pre ++ '$' :: (msg ++ '#' :: post)).count '$' = 1) :
    Aligned (pre ++ '$' :: (msg ++ '#' :: post)) := by
  rw [count_start hd] at hcount
  refine .inr ⟨pre, msg, post, rfl, hd, ?_, ?_, ?_, ?_⟩
  · exact fun hm => hh (List.mem_append_left _ hm)
  · exact List.count_eq_zero.mp (by omega)
  · exact fun hm => hh (List.mem_append_right _ (List.mem_cons_of_mem _ hm))
  · exact List.count_eq_zero.mp (by omega)

/-- The chunks up to the end of the loop have the marks of the payloads, and are aligned if they
have no others. -/
structure Accounts (fuel : ℕ) (d : Debug T) (payloads heard unheard : List (List Char)) : Prop where
  goesOn : GoesOnBehind fuel d payloads.dropLast
  ends : unheard ≠ [] → ¬GoesOnBehind fuel d payloads
  starts : payloads.length ≤ heard.flatten.count '$'
  stops : payloads.length ≤ heard.flatten.count '#'
  aligned : heard.flatten.count '$' ≤ payloads.length → ∀ c ∈ heard, Aligned c

namespace Accounts

variable {chunk : List Char} {d' : Debug T}

theorem of_withBuffer {iobuf : Iobuf}
    (h : Accounts fuel (d.withBuffer iobuf) payloads heard unheard) :
    Accounts fuel d payloads heard unheard where
  goesOn := (goesOnBehind_withBuffer iobuf _ _ _).mp h.goesOn
  ends hne hg := h.ends hne ((goesOnBehind_withBuffer iobuf _ _ _).mpr hg)
  starts := h.starts
  stops := h.stops
  aligned := h.aligned

/-- A chunk whose message is passed over. -/
theorem pass (h : Accounts fuel d payloads heard unheard)
    (ha : chunk.count '$' = 0 → Aligned chunk) :
    Accounts fuel d payloads (chunk :: heard) unheard where
  goesOn := h.goesOn
  ends := h.ends
  starts := by
    rw [List.flatten_cons, List.count_append]
    exact h.starts.trans (Nat.le_add_left _ _)
  stops := by
    rw [List.flatten_cons, List.count_append]
    exact h.stops.trans (Nat.le_add_left _ _)
  aligned hle := by
    rw [List.flatten_cons, List.count_append] at hle
    have hstarts := h.starts
    exact List.forall_mem_cons.mpr ⟨ha (by omega), h.aligned (by omega)⟩

/-- A chunk with a message that the loop ends with. -/
theorem last (hm : afterMessage fuel d msg = none) (hs : 1 ≤ chunk.count '$')
    (hh : 1 ≤ chunk.count '#') (ha : chunk.count '$' = 1 → Aligned chunk) :
    Accounts fuel d [msg] [chunk] unheard where
  goesOn := rfl
  ends _ hg := by
    obtain ⟨d', hd', -⟩ := goesOnBehind_cons.mp hg
    cases hm.symm.trans hd'
  starts := by rwa [List.flatten_singleton]
  stops := by rwa [List.flatten_singleton]
  aligned hle := by
    rw [List.flatten_singleton] at hle
    exact List.forall_mem_singleton.mpr (ha (Nat.le_antisymm hle hs))

/-- A chunk with a message that the loop goes on behind. -/
theorem cons (h : Accounts fuel d' payloads heard unheard)
    (hm : afterMessage fuel d msg = some d') (hs : 1 ≤ chunk.count '$') (hh : 1 ≤ chunk.count '#')
    (ha : chunk.count '$' = 1 → Aligned chunk) :
    Accounts fuel d (msg :: payloads) (chunk :: heard) unheard where
  goesOn := by
    cases payloads with
    | nil => rfl
    | cons p payloads =>
      rw [List.dropLast_cons_of_ne_nil (List.cons_ne_nil p payloads)]
      exact goesOnBehind_cons.mpr ⟨d', hm, h.goesOn⟩
  ends hne hg := by
    obtain ⟨_, hd', hg⟩ := goesOnBehind_cons.mp hg
    cases hm.symm.trans hd'
    exact h.ends hne hg
  starts := by
    have hstarts := h.starts
    rw [List.flatten_cons, List.count_append, List.length_cons]
    omega
  stops := by
    have hstops := h.stops
    rw [List.flatten_cons, List.count_append, List.length_cons]
    omega
  aligned hle := by
    have hstarts := h.starts
    rw [List.flatten_cons, List.count_append, List.length_cons] at hle
    exact List.forall_mem_cons.mpr ⟨ha (by omega), h.aligned (by omega)⟩

end Accounts

/-- With empty buffers the payloads are accounted for by the chunks that are received. -/
theorem accounts_of_commands (hc : ∀ c ∈ chunks, c ≠ [] ∧ c.length ≤ bufsize)
    (h : (loopRun fuel d (chunks.map fun c => (some .zero, c))).commands = payloads.map .ok) :
    (∀ m ∈ payloads, m ≠ ['+'] ∧ '\x00' ∉ m) ∧
      ∃ heard unheard, chunks = heard ++ unheard ∧ Accounts fuel d payloads heard unheard := by
  induction chunks generalizing d payloads with
  | nil =>
    obtain rfl := List.map_eq_nil_iff.mp h.symm
    exact ⟨nofun, [], [], rfl, rfl, fun hne => absurd rfl hne, le_rfl, le_rfl, fun _ => nofun⟩
  | cons chunk chunks ih =>
    obtain ⟨⟨hne, hlen⟩, hchunks⟩ := List.forall_mem_cons.mp hc
    rw [List.map_cons] at h
    cases hr : receivePacket .zero (some chunk) with
    | error e =>
      rw [commands_error (x := (some .zero, chunk)) (d := d) hr] at h
      cases payloads with
      | nil => cases h
      | cons p payloads => cases (List.cons.inj h).1
    | ok r =>
      obtain ⟨iobuf', msg⟩ := r
      have hpass (hplus : msg = ['+']) (ha : chunk.count '$' = 0 → Aligned chunk) :
          (∀ m ∈ payloads, m ≠ ['+'] ∧ '\x00' ∉ m) ∧ ∃ heard unheard,
            chunk :: chunks = heard ++ unheard ∧ Accounts fuel d payloads heard unheard := by
        subst hplus
        rw [commands_plus (x := (some .zero, chunk)) (d := d) hr] at h
        obtain ⟨hall, heard, unheard, rfl, hacc⟩ := ih hchunks h
        exact ⟨hall, chunk :: heard, unheard, rfl, hacc.of_withBuffer.pass ha⟩
      rcases receivePacket_zero hne hlen hr with ⟨h1, hplus⟩ | ⟨pre, post, rfl, hd, hh, h0⟩
      · refine hpass hplus fun hcount => ?_
        obtain ⟨c, rfl⟩ := List.length_eq_one_iff.mp h1
        exact aligned_singleton hcount
      · have hstart := count_start hd msg post
        by_cases hplus : msg = ['+']
        · exact hpass hplus fun hcount => by omega
        · have hm0 : '\x00' ∉ msg := fun hm =>
            h0 (List.mem_append_right _ (List.mem_cons_of_mem _ hm))
          have ha := aligned_marks hd hh post
          rw [commands_ok (x := (some .zero, _)) (d := d) hr hplus] at h
          cases payloads with
          | nil => cases h
          | cons p payloads =>
            obtain ⟨hp, hrest⟩ := List.cons.inj h
            obtain rfl := Except.ok.inj hp
            rw [List.forall_mem_cons]
            cases hm : afterMessage fuel (d.withBuffer iobuf') msg with
            | none =>
              rw [hm] at hrest
              obtain rfl := List.map_eq_nil_iff.mp hrest.symm
              exact ⟨⟨⟨hplus, hm0⟩, nofun⟩, _, chunks, List.singleton_append.symm,
                (Accounts.last hm (by omega) count_stop ha).of_withBuffer⟩
            | some d' =>
              rw [hm] at hrest
              obtain ⟨hall, heard, unheard, rfl, hacc⟩ := ih hchunks hrest
              exact ⟨⟨⟨hplus, hm0⟩, hall⟩, _, unheard, (List.cons_append).symm,
                (hacc.cons hm (by omega) count_stop ha).of_withBuffer⟩

/-- For every stub, every stream of packets and every way to cut it into chunks that fit the buffer,
the loop gets the payloads exactly when it goes on behind each of them but the last, each chunk is a
single character that starts no packet or holds one packet up to its `#`, up to the end of the loop,
and no payload is a bare `+` or has a null character. -/
theorem delivers_iff (hs : chunks.flatten = packets.flatMap Packet.chars)
    (hc : ∀ c ∈ chunks, c ≠ [] ∧ c.length ≤ bufsize) :
    Delivers fuel d packets chunks ↔
      GoesOnBehind fuel d (packets.dropLast.map Packet.payload) ∧
        AlignedUnless (¬GoesOnBehind fuel d (packets.map Packet.payload)) chunks ∧
        ∀ p ∈ packets, p.payload ≠ ['+'] ∧ '\x00' ∉ p.payload := by
  have hframes := frames_flatMap packets
  rw [← hs] at hframes
  rw [List.map_dropLast]
  constructor
  · intro h
    have hd : (loopRun fuel d (chunks.map fun c => (some .zero, c))).commands =
        (packets.map Packet.payload).map .ok := by
      rw [List.map_map]
      exact h _ (by simp)
    obtain ⟨hall, heard, unheard, rfl, hacc⟩ := accounts_of_commands hc hd
    -- the chunks received have as many marks of each kind as the stream
    have hstart := count_flatMap packets (.inl rfl)
    have hstop := count_flatMap packets (.inr rfl)
    have hstarts := hacc.starts
    have hstops := hacc.stops
    rw [← hs, List.flatten_append, List.count_append] at hstart hstop
    rw [List.length_map] at hstarts hstops
    refine ⟨hacc.goesOn, ⟨heard, unheard, rfl, hacc.aligned ?_, ?_, hacc.ends⟩, ?_⟩
    · rw [List.length_map]
      omega
    · intro c hmem hc
      have hzero : unheard.flatten.count '#' = 0 := by omega
      exact List.count_eq_zero.mp hzero (List.mem_flatten_of_mem hmem hc)
    · exact fun p hp => hall _ (List.mem_map_of_mem hp)
  · rintro ⟨hgo, ⟨heard, unheard, rfl, ha, hun, hend⟩, hp⟩ calls hcalls
    have h0 : '\x00' ∉ (heard ++ unheard).flatten :=
      hs ▸ zero_not_mem_flatMap fun p h => (hp p h).2
    have hfit : ∀ c ∈ heard, c.length ≤ bufsize ∧ Aligned c ∧ '\x00' ∉ c := by
      intro c hm
      have hmem : c ∈ heard ++ unheard := List.mem_append_left _ hm
      exact ⟨(hc _ hmem).2, ha _ hm, fun h => h0 (List.mem_flatten_of_mem hmem h)⟩
    have hplus : ['+'] ∉ packets.map Packet.payload := by
      intro hmem
      obtain ⟨p, hpm, he⟩ := List.mem_map.mp hmem
      exact (hp p hpm).1 he
    rw [commands_of_aligned hcalls hfit hun hframes hplus hgo hend, List.map_map]
    rfl

end Streams

/-- The packet `?`. -/
def packetQuery : Packet where
  ack := false
  payload := ['?']
  check := ['3', 'f']
  payload_chars := by decide
  check_length := rfl
  check_digits := List.forall_mem_cons.mpr ⟨rfl, List.forall_mem_singleton.mpr rfl⟩

/-- The packet `vKill;1`, with an acknowledgement. -/
def packetKill : Packet where
  ack := true
  payload := "vKill;1".toList
  check := ['6', 'e']
  payload_chars := by decide
  check_length := rfl
  check_digits := List.forall_mem_cons.mpr ⟨rfl, List.forall_mem_singleton.mpr rfl⟩

/-- Behind `vKill` the check digits are not received. -/
theorem delivers_kill :
    Delivers 0 ⟨start .RV32 [], .zero, fun _ => 0, ∅⟩ [packetQuery, packetKill]
      ["$?#3".toList, "f".toList, "+".toList, "$vKill;1#".toList, "6e".toList] := by
  have hs : ["$?#3".toList, "f".toList, "+".toList, "$vKill;1#".toList, "6e".toList].flatten =
      [packetQuery, packetKill].flatMap Packet.chars := rfl
  have hfit : ∀ c ∈ ["$?#3".toList, "f".toList, "+".toList, "$vKill;1#".toList, "6e".toList],
      c ≠ [] ∧ c.length ≤ bufsize := by decide
  refine (delivers_iff hs hfit).mpr ⟨by decide, ?_, by decide⟩
  refine ⟨["$?#3".toList, "f".toList, "+".toList, "$vKill;1#".toList], ["6e".toList], rfl, ?_,
    by decide, fun _ => by decide⟩
  rw [List.forall_mem_cons, List.forall_mem_cons, List.forall_mem_cons, List.forall_mem_singleton]
  refine ⟨.inr ⟨[], ['?'], ['3'], rfl, by decide⟩, .inl ⟨'f', rfl, by decide⟩,
    .inl ⟨'+', rfl, by decide⟩, .inr ⟨[], "vKill;1".toList, [], rfl, by decide⟩⟩

/-- Of two packets in one chunk the second is lost. -/
theorem not_delivers_merged :
    ["$?#3f$?#3f".toList].flatten = [packetQuery, packetQuery].flatMap Packet.chars ∧
      ¬Delivers 0 ⟨start .RV32 [], .zero, fun _ => 0, ∅⟩ [packetQuery, packetQuery]
        ["$?#3f$?#3f".toList] := by
  refine ⟨rfl, fun h => ?_⟩
  have hr : receivePacket ((none : Option Iobuf).getD .zero) (some "$?#3f$?#3f".toList) =
      .ok (Iobuf.zero.write "$?#3f$?#3f".toList, ['?']) := rfl
  have hd : (loopRun 0 ⟨start .RV32 [], .zero, fun _ => 0, ∅⟩
      [(none, "$?#3f$?#3f".toList)]).commands = _ := commands_ok hr (by decide)
  cases hd.symm.trans (h _ rfl)

end RiscvTlm.Debug
