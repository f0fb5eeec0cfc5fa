import RiscvTlm.Atomics
import RiscvTlm.CpuThread
import RiscvTlm.Decode

/-!
# Reservations

The reservations of a run from reset, as a function of its history of the words that the code runs
as an `LR` or an `SC`. The manual allows an `SC.W` when the latest `LR` or `SC` instruction is an
`LR.W` of its address; the code when the latest word of the history whose address agrees in the low
32 bits ran as an `LR`, which need not be an instruction of the extension at all.
-/

namespace RiscvTlm

open Isa Prog Transitions ByteMemory ExtensionBase AExtension

variable {T : CpuType} {s t : System T} {w : BitVec 32}

/-! ## Histories -/

/-- A word executed as an `LR` or an `SC`, with its address. -/
inductive AtomicOp (T : CpuType)
  | lr (w : BitVec 32) (address : BitVec T.xlen)
  | sc (w : BitVec 32) (address : BitVec T.xlen)
  deriving DecidableEq

namespace AtomicOp

def word : AtomicOp T → BitVec 32
  | .lr w _ | .sc w _ => w

def address : AtomicOp T → BitVec T.xlen
  | .lr _ a | .sc _ a => a

/-- The part of the address that the code looks at. -/
def key (op : AtomicOp T) : BitVec 32 := op.address.setWidth 32

end AtomicOp

/-- The reservations that a history, the latest operation first, leaves in the code. -/
def reservations : List (AtomicOp T) → Finset (BitVec 32)
  | [] => ∅
  | .lr _ a :: h => insert (a.setWidth 32) (reservations h)
  | .sc _ a :: h => (reservations h).erase (a.setWidth 32)

/-- The latest operation at an address, as far as its low 32 bits tell. -/
def latestAt (h : List (AtomicOp T)) (k : BitVec 32) : Option (AtomicOp T) :=
  h.find? fun op => op.key = k

/-- An address is reserved exactly when the latest operation at it is an `LR`. -/
theorem mem_reservations_iff {h : List (AtomicOp T)} {k : BitVec 32} :
    k ∈ reservations h ↔ ∃ w b, latestAt h k = some (.lr w b) := by
  induction h with
  | nil => simp [reservations, latestAt]
  | cons op h ih =>
    rw [latestAt, List.find?_cons]
    cases op with
    | lr w a =>
      rw [reservations, Finset.mem_insert, ih]
      by_cases hk : a.setWidth 32 = k
      · have hd : decide ((AtomicOp.lr w a).key = k) = true := decide_eq_true hk
        rw [hd]
        exact ⟨fun _ => ⟨w, a, rfl⟩, fun _ => .inl hk.symm⟩
      · have hd : decide ((AtomicOp.lr w a).key = k) = false := decide_eq_false hk
        rw [hd]
        exact ⟨fun hr => hr.resolve_left fun e => hk e.symm, .inr⟩
    | sc w a =>
      rw [reservations, Finset.mem_erase, ih]
      by_cases hk : a.setWidth 32 = k
      · have hd : decide ((AtomicOp.sc w a).key = k) = true := decide_eq_true hk
        rw [hd]
        constructor
        · rintro ⟨hne, -⟩
          exact absurd hk.symm hne
        · rintro ⟨_, _, hb⟩
          cases hb
      · have hd : decide ((AtomicOp.sc w a).key = k) = false := decide_eq_false hk
        rw [hd]
        exact ⟨And.right, fun hr => ⟨fun e => hk e.symm, hr⟩⟩

/-! ## The reservations after a step -/

/-- What the next step executes as an `LR` or an `SC`. -/
def nextAtomic (s : System T) : Option (AtomicOp T) :=
  (fetched s).bind fun w =>
    match decodeCascade T w with
    | .a .OP_A_LR => if getRs2 w = 0 then some (.lr w (addr w s)) else none
    | .a .OP_A_SC => some (.sc w (addr w s))
    | _ => none

/-- The history after a step. -/
def extendHistory (s : System T) (h : List (AtomicOp T)) : List (AtomicOp T) :=
  (nextAtomic s).toList ++ h

section Observation

/-- The reservations are not touched by an instruction outside the extension. -/
theorem ignoresStep_tlb : IgnoresStep fun s : System T => s.tlbAEntries :=
  ⟨fun _ _ => rfl, fun _ _ _ => rfl⟩

theorem keeps_raiseException_tlb (cause : ExceptionCause) (m : BitVec 32) :
    Keeps (fun s : System T => s.tlbAEntries) (raiseException cause m) := by
  intro s
  cases cause <;> rfl

theorem keeps_execDecoded_tlb {d : Decoded} (h : reserving d = false) :
    Keeps (fun s : System T => s.tlbAEntries) (execDecoded w d) :=
  keeps_execDecoded_of ignoresStep_tlb (fun _ _ _ _ => rfl) (.inr fun _ _ => rfl) (.inl h)
    (fun _ _ _ _ => rfl) (.inr fun cause => keeps_raiseException_tlb cause w)

/-- What the fetch leaves for the reservations. -/
theorem fetch_tlb {s₁ : System T} (h : fetch.run s = .ok w s₁) :
    s₁.tlbAEntries = s.tlbAEntries := by
  have hk : Keeps (fun s : System T => s.tlbAEntries) fetch :=
    keeps_fetch ⟨fun _ _ => rfl, fun _ _ _ _ => rfl, fun _ _ => rfl⟩ fun _ _ => rfl
  exact hk.eq_ok h

end Observation

/-- An atomic word that returns, before the PC increment. -/
theorem execDecoded_a_ok {code : OpACodes} {b : Bool}
    (h : (execDecoded w (.a code)).run s = .ok b t) :
    ∃ u, (execInstruction w code).run s = .ok true u ∧ t = { u with regs := u.regs.incPC } := by
  obtain ⟨r, u, hu, ht⟩ := bind_eq_ok h
  have hr : r = true := by
    cases code
    all_goals
      obtain ⟨x, v, -, hr⟩ := bind_eq_ok hu
      cases hr
      rfl
  subst hr
  exact ⟨u, hu, (EStateM.Result.ok.inj ht).2.symm⟩

theorem execLR_tlb {b : Bool} (h0 : getRs2 w = 0) (h : (execLR w).run s = .ok b t) :
    t.tlbAEntries = insert ((addr w s).setWidth 32) s.tlbAEntries := by
  have hget : (getValue (getRs1 w)).run s = .ok (addr w s) s := rfl
  rw [execLR, if_neg (not_not.mpr h0), run_bind_ok hget] at h
  obtain ⟨data, u, hu, ht⟩ := bind_eq_ok h
  have hk := (keeps_readDataMem ignoresStep_tlb (((addr w s).setWidth 32).setWidth 64) 4).eq_ok hu
  cases ht
  rw [← hk]

/-- An `SC` that finds its address reserved. -/
theorem execSC_reserved {b : Bool} (hr : Reserved w s) (h : (execSC w).run s = .ok b t) :
    ∃ u, (writeDataMem (((addr w s).setWidth 32).setWidth 64) (operand w s) 4).run
        { s with tlbAEntries := s.tlbAEntries.erase ((addr w s).setWidth 32) } = .ok () u ∧
      t = u.setReg (getRd w) 0 := by
  have hget : (getValue (getRs1 w)).run s = .ok (addr w s) s := rfl
  rw [execSC, run_bind_ok hget, run_bind_ok (run_getValue s _),
    run_bind_ok (run_tlbReserved_true hr), if_pos rfl] at h
  obtain ⟨x, u, hu, ht⟩ := bind_eq_ok h
  cases ht
  exact ⟨u, hu, rfl⟩

theorem execSC_tlb {b : Bool} (h : (execSC w).run s = .ok b t) :
    t.tlbAEntries = s.tlbAEntries.erase ((addr w s).setWidth 32) := by
  by_cases hr : Reserved w s
  · obtain ⟨u, hu, rfl⟩ := execSC_reserved hr h
    have hk : Keeps (fun s : System T => s.tlbAEntries) (writeDataMem _ (operand w s) 4) :=
      keeps_writeDataMem (fun _ _ => rfl) (((addr w s).setWidth 32).setWidth 64) _ _
    exact hk.eq_ok hu
  · rw [run_execSC_not_reserved hr] at h
    cases h
    exact (Finset.erase_eq_of_notMem hr).symm

/-- The reservations after a step. -/
theorem cpuStep_tlb {b : Bool} {h : List (AtomicOp T)} (hs : cpuStep.run s = .ok b t)
    (hh : s.tlbAEntries = reservations h) : t.tlbAEntries = reservations (extendHistory s h) := by
  obtain ⟨w, s₁, hf, he⟩ := bind_eq_ok hs
  have htlb := fetch_tlb hf
  have haddr : addr w s₁ = addr w s := by rw [addr, addr, (fetch_frame hf).1]
  have hkeep (hd : reserving (decodeCascade T w) = false) : t.tlbAEntries = s.tlbAEntries :=
    ((keeps_execDecoded_tlb hd).eq_ok he).trans htlb
  rw [extendHistory, nextAtomic, fetched_eq hf, Option.bind_some]
  split
  next hd =>
    rw [hd] at he
    obtain ⟨u, hu, rfl⟩ := execDecoded_a_ok he
    obtain ⟨x, v, hv, hr⟩ := bind_eq_ok hu
    cases hr
    split
    next h0 =>
      have hx := execLR_tlb h0 hv
      rw [haddr, htlb, hh] at hx
      exact hx
    next h0 =>
      rw [execLR, if_pos h0] at hv
      have hk : Keeps (fun s : System T => s.tlbAEntries)
          (do raiseException .ILLEGAL_INSTRUCTION w; return false) :=
        .bind (keeps_raiseException_tlb _ w) fun _ => .pure _
      exact ((hk.eq_ok hv).trans htlb).trans hh
  next hd =>
    rw [hd] at he
    obtain ⟨u, hu, rfl⟩ := execDecoded_a_ok he
    obtain ⟨x, v, hv, hr⟩ := bind_eq_ok hu
    cases hr
    have hx := execSC_tlb hv
    rw [haddr, htlb, hh] at hx
    exact hx
  next hlr hsc =>
    have hd : reserving (decodeCascade T w) = false := by
      rw [reserving, decide_eq_false_iff_not, List.mem_cons, List.mem_singleton, not_or]
      exact ⟨hlr, hsc⟩
    exact (hkeep hd).trans hh

/-! ## Runs with their history -/

/-- The CPU thread and the history of what it has executed as an `LR` or an `SC`. -/
structure Traced (T : CpuType) where
  thread : CpuThread T
  history : List (AtomicOp T)

def Traced.next (x : Traced T) (e : Event T) : Option (Traced T) :=
  (x.thread.next e).map fun l =>
    ⟨l, match e with
      | .cpuStep => extendHistory x.thread.cpu x.history
      | _ => x.history⟩

/-- A CPU after reset. -/
def Traced.start (memory : Memory) (PC : BitVec T.xlen) (host : Host) : Traced T :=
  ⟨⟨.step, reset memory PC host⟩, []⟩

/-- The set of the code is the one of the history. -/
def Tracked (x : Traced T) : Prop := x.thread.cpu.tlbAEntries = reservations x.history

theorem tracked_next {x y : Traced T} {e : Event T} (hx : Tracked x) (hn : x.next e = some y) :
    Tracked y := by
  obtain ⟨l, hl, rfl⟩ := Option.map_eq_some_iff.mp hn
  obtain ⟨l₀, h⟩ := x
  change l₀.cpu.tlbAEntries = reservations h at hx
  cases step_of_next hl with
  | cpuStep hs => exact cpuStep_tlb hs hx
  | down =>
    refine Eq.trans ?_ hx
    unfold irqDown
    split <;> rfl
  | taken | delayed | callInterrupt | wait => exact hx

theorem tracked_run {memory : Memory} {PC : BitVec T.xlen} {host : Host} {tr : List (Event T)}
    {x : Traced T} (hr : Run Traced.next (fun _ _ => True) (.start memory PC host) tr x) :
    Tracked x :=
  hr.invariant (fun _ _ _ hx _ hn => tracked_next hx hn) rfl

/-! ## The rule for a store-conditional -/

instance AWord.decidable (T : CpuType) (w : BitVec 32) : Decidable (AWord T w) :=
  inferInstanceAs (Decidable (_ ∧ _))

/-- The `LR` and `SC` instructions of a history, by their opcode and width: the code also runs other
words as these. -/
def instructions (h : List (AtomicOp T)) : List (AtomicOp T) := h.filter fun op => AWord T op.word

/-- `flw f0, 256(x0)` runs as an `LR`. -/
example : nextAtomic (start .RV32 [0x10002007]) = some (.lr 0x10002007 0) ∧
    ¬AWord .RV32 0x10002007 := by decide

/-- The latest `LR` or `SC` instruction is an `LR.W` of the address. -/
def Granted (h : List (AtomicOp T)) (a : BitVec T.xlen) : Prop :=
  ∃ aqrl rd rs1, (instructions h).head? = some (.lr (encode (.lrW aqrl rd rs1)) a)

theorem Granted.address_eq {h : List (AtomicOp T)} {a : BitVec T.xlen} (hg : Granted h a) :
    (instructions h).head?.map AtomicOp.address = some a := by
  obtain ⟨aqrl, rd, rs1, hh⟩ := hg
  rw [hh]
  rfl

/-- An `SC.W` stores and returns zero only after an `LR.W` of its address that no other `LR` or `SC`
followed; otherwise the memory is unchanged and the result is not zero. -/
def ScRule (h : List (AtomicOp T)) (w : BitVec 32) (s t : System T) : Prop :=
  Granted h (addr w s) ∨ t.mem = s.mem ∧ (getRd w ≠ 0 → t.regs.getValue (getRd w) ≠ 0)

/-- The code lets an `SC` through only where the manual does: if the latest word at the address, as
far as its low 32 bits tell, ran as an `LR`, it is the `LR.W` that the manual asks for. -/
def Exclusive (h : List (AtomicOp T)) (a : BitVec T.xlen) : Prop :=
  ∀ w b, latestAt h (a.setWidth 32) = some (.lr w b) → Granted h a

/-- A store that cannot be told from no store: there is no result register, and the word is there
already or is not stored in the memory. -/
def Unseen (w : BitVec 32) (s : System T) : Prop :=
  getRd w = 0 ∧ (((addr w s).setWidth 32).toNat < Memory.SIZE →
    (Write.ofNum ((addr w s).setWidth 32).toNat 4 (operand w s)).apply s.mem = s.mem)

/-- A successful `SC` obeys the rule against the history only if nothing shows. -/
theorem execSC_unseen_iff {b : Bool} (hr : Reserved w s) (h : (execSC w).run s = .ok b t) :
    (t.mem = s.mem ∧ (getRd w ≠ 0 → t.regs.getValue (getRd w) ≠ 0)) ↔ Unseen w s := by
  obtain ⟨u, hu, rfl⟩ := execSC_reserved hr h
  have hmem := mem_of_writeDataMem (by decide) hu
  rw [BitVec.toNat_setWidth_of_le (by decide)] at hmem
  have hrd : (getRd w ≠ 0 → (u.setReg (getRd w) 0).regs.getValue (getRd w) ≠ 0) ↔ getRd w = 0 := by
    constructor
    · intro h0
      by_contra hne
      exact h0 hne (getValue_setReg u _ (getRd_lt w) hne)
    · exact fun h0 hne => absurd h0 hne
  rw [hrd, and_comm, Unseen]
  refine and_congr_right fun _ => ?_
  change u.mem = s.mem ↔ _
  rw [hmem]
  by_cases ha : ((addr w s).setWidth 32).toNat < Memory.SIZE
  · rw [if_pos ha]
    exact ⟨fun he _ => he, fun he => he ha⟩
  · rw [if_neg ha]
    exact ⟨fun _ hlt => absurd hlt ha, fun _ => rfl⟩

/-- In every run from reset an `SC.W` obeys the rule exactly when the latest word that ran as an
`LR` or an `SC` at its address, as far as the low 32 bits tell, ran as no `LR`, or the latest `LR`
or `SC` instruction is an `LR.W` of its address, or the store does not show. -/
theorem scRule_iff {memory : Memory} {PC : BitVec T.xlen} {host : Host} {tr : List (Event T)}
    {x : Traced T} {b : Bool} {aqrl : BitVec 2} {rd rs1 rs2 : Reg}
    (hr : Run Traced.next (fun _ _ => True) (.start memory PC host) tr x)
    (hs : cpuStep.run x.thread.cpu = .ok b t) (hw : fetched x.thread.cpu = some w)
    (hsc : w = encode (.scW aqrl rd rs1 rs2)) :
    ScRule x.history w x.thread.cpu t ↔
      Exclusive x.history (addr w x.thread.cpu) ∨ Unseen w x.thread.cpu := by
  have hd : decodeCascade T w = .a .OP_A_SC := hsc ▸ decodeCascade_encode (.scW aqrl rd rs1 rs2)
  have htlb : x.thread.cpu.tlbAEntries = reservations x.history := tracked_run hr
  generalize x.thread.cpu = s at *
  obtain ⟨w', s₁, hf, he⟩ := bind_eq_ok hs
  obtain rfl : w' = w := Option.some_inj.mp ((fetched_eq hf).symm.trans hw)
  obtain ⟨hregs, -, -, hmem⟩ := fetch_frame hf
  have haddr : addr w' s₁ = addr w' s := by rw [addr, addr, hregs]
  have hop : operand w' s₁ = operand w' s := by rw [operand, operand, hregs]
  have hm : s₁.mem = s.mem := congrArg Memory.mem hmem
  rw [hd] at he
  obtain ⟨u, hu, rfl⟩ := execDecoded_a_ok he
  obtain ⟨y, v, hv, hx⟩ := bind_eq_ok hu
  cases hx
  have hres : Reserved w' s₁ ↔
      ∃ u b, latestAt x.history ((addr w' s).setWidth 32) = some (.lr u b) := by
    rw [Reserved, haddr, fetch_tlb hf, htlb, mem_reservations_iff]
  unfold ScRule Exclusive
  by_cases hhead : Granted x.history (addr w' s)
  · exact ⟨fun _ => .inl fun _ _ _ => hhead, fun _ => .inl hhead⟩
  · by_cases hl : Reserved w' s₁
    · have hun := execSC_unseen_iff hl hv
      rw [hm, Unseen, haddr, hop, hm] at hun
      constructor
      · rintro (h | h)
        · exact absurd h hhead
        · exact .inr (hun.mp h)
      · rintro (h | h)
        · obtain ⟨u, b, hb⟩ := hres.mp hl
          exact absurd (h u b hb) hhead
        · exact .inr (hun.mpr h)
    · rw [run_execSC_not_reserved hl] at hv
      cases hv
      refine ⟨fun _ => .inl fun u b hb => absurd (hres.mpr ⟨u, b, hb⟩) hl, fun _ => .inr ⟨hm, ?_⟩⟩
      intro h0
      change (s₁.setReg (getRd w') 1).regs.getValue (getRd w') ≠ 0
      rw [getValue_setReg s₁ _ (getRd_lt w') h0]
      cases T <;> decide

/-- A reset with a program of 32-bit words at address 0. -/
def Traced.load (program : List (BitVec 32)) : Traced .RV32 :=
  .start (Memory.load program) 0 ⟨0, id, fun _ => 0⟩

/-- `lr.w x3, (x0); sc.w x4, x2, (x0)`. -/
theorem scRule_lr_sc :
    ∃ x t, Run Traced.next (fun _ _ => True) (.load [0x100021AF, 0x1820222F])
        [.cpuStep, .cpuProcessIRQ false] x ∧
      cpuStep.run x.thread.cpu = .ok false t ∧ ScRule x.history 0x1820222F x.thread.cpu t := by
  have hr : Run Traced.next (fun _ _ => True) (.load [0x100021AF, 0x1820222F])
      [.cpuStep, .cpuProcessIRQ false] _ := .cons trivial rfl (.cons trivial rfl (.nil _))
  have hsc : 0x1820222F = encode (.scW 0 4 0 2) := by decide
  have hrule := scRule_iff hr rfl rfl hsc
  exact ⟨_, _, hr, rfl, hrule.mpr (.inl fun _ _ _ => ⟨0, 3, 0, by decide⟩)⟩

/-- `lr.w x3, (x0); lr.w x3, (x2); sc.w x4, x2, (x0)`: the first `LR` still authorises the `SC`. -/
theorem not_scRule_lr_lr_sc :
    ∃ x t, Run Traced.next (fun _ _ => True) (.load [0x100021AF, 0x100121AF, 0x1820222F])
        [.cpuStep, .cpuProcessIRQ false, .cpuStep, .cpuProcessIRQ false] x ∧
      cpuStep.run x.thread.cpu = .ok false t ∧ ¬ScRule x.history 0x1820222F x.thread.cpu t := by
  refine ⟨_, _, .cons trivial rfl (.cons trivial rfl (.cons trivial rfl (.cons trivial rfl
    (.nil _)))), rfl, ?_⟩
  rintro (h | h)
  · exact absurd h.address_eq (by decide)
  · exact absurd (h.2 (by decide)) (by decide)

end RiscvTlm
