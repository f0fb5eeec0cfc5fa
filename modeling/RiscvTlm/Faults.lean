import RiscvTlm.Atomics
import RiscvTlm.BusErrors
import RiscvTlm.MulDiv
import RiscvTlm.ShiftCounts
import RiscvTlm.Stops

/-!
# When a step does not return

A step ends in an exception of SystemC, with its message, or has no defined result: at a fetch or a
data access that the bus does not complete, at a shift past the width of its operand, and at a
quotient out of range. `stepFault` finds the fault before the step is made. No other instruction has
one, in any state.
-/

namespace RiscvTlm

open Isa Prog ExtensionBase

variable {T : CpuType} {s s₁ t : System T} {w : BitVec 32} {α β : Type} {a : BitVec 64}
  {size : ℕ}

/-! ## Faults -/

/-- A data access as the CPU makes it. -/
inductive Transfer
  | load (addr : BitVec 64) (size : ℕ)
  | store (addr : BitVec 64) (size : ℕ)
  deriving DecidableEq, Repr

/-- The fault of an access: no target answers from `TO_HOST_ADDRESS` on, and the array ends at
`Memory.SIZE`. -/
def busFault (addr : BitVec 64) (size : ℕ) (refused : Fault) : Option Fault :=
  if TO_HOST_ADDRESS ≤ addr.toNat then some refused
  else if addr.toNat < Memory.SIZE ∧ Memory.SIZE < addr.toNat + size then some .undefinedBehaviour
  else none

def Transfer.fault : Transfer → Option Fault
  | .load addr size =>
    busFault addr size (.scReportError "Memory" ("Read memory: 0x" ++ hex addr))
  | .store addr size =>
    busFault addr size (.scReportError "Memory" ("Write memory: 0x" ++ hex addr))

/-- The fault of the first access that has one. -/
def firstFault : List Transfer → Option Fault
  | [] => none
  | x :: xs => x.fault.or (firstFault xs)

/-- The accesses of a load: a doubleword is loaded word by word. -/
def LoadOp.transfers (op : LoadOp) (w : BitVec 32) (s : System T) : List Transfer :=
  let memAddr := op.addr w s
  match op with
  | .LD | .C_LD | .C_LDSP => [.load (memAddr.setWidth 64) 4, .load ((memAddr + 4).setWidth 64) 4]
  | _ => [.load (memAddr.setWidth 64) op.width]

/-- The accesses of a store; the compressed word stores have 32-bit addresses. -/
def StoreOp.transfers (op : StoreOp) (w : BitVec 32) (s : System T) : List Transfer :=
  let memAddr := op.addr w s
  match op with
  | .SD | .C_SD | .C_SDSP =>
    [.store (memAddr.setWidth 64) 4, .store ((memAddr + 4).setWidth 64) 4]
  | .C_SW | .C_SWSP => [.store ((memAddr.setWidth 32).setWidth 64) 4]
  | _ => [.store (memAddr.setWidth 64) op.width]

namespace BaseIsa

/-- The loads and the stores among the codes. -/
def loadOp : OpCodes → Option LoadOp
  | .OP_LB => some .LB
  | .OP_LH => some .LH
  | .OP_LW => some .LW
  | .OP_LBU => some .LBU
  | .OP_LHU => some .LHU
  | .OP_LWU => some .LWU
  | .OP_LD => some .LD
  | _ => none

def storeOp : OpCodes → Option StoreOp
  | .OP_SB => some .SB
  | .OP_SH => some .SH
  | .OP_SW => some .SW
  | .OP_SD => some .SD
  | _ => none

/-- The data accesses of a function of the base extension. -/
def transfers (w : BitVec 32) (s : System T) (code : OpCodes) : List Transfer :=
  match loadOp code, storeOp code with
  | some op, _ => op.transfers w s
  | _, some op => op.transfers w s
  | none, none =>
    if code = .OP_FENCE then
      [.load ((s.regs.registerPC.setWidth 32 + 4 : BitVec 32).setWidth 64) 4]
    else []

end BaseIsa

namespace CExtension

def loadOp : OpCCodes → Option LoadOp
  | .OP_C_LW => some .C_LW
  | .OP_C_LWSP => some .C_LWSP
  | .OP_C_LD => some .C_LD
  | .OP_C_LDSP => some .C_LDSP
  | _ => none

def storeOp : OpCCodes → Option StoreOp
  | .OP_C_SW => some .C_SW
  | .OP_C_SWSP => some .C_SWSP
  | .OP_C_SD => some .C_SD
  | .OP_C_SDSP => some .C_SDSP
  | _ => none

/-- The accesses of `C.FSW`, which stores a doubleword. -/
def transfersFSW (w : BitVec 32) (s : System T) : List Transfer :=
  let memAddr := (StoreOp.C_SW.addr w s).setWidth 32
  [.store (memAddr.setWidth 64) 4, .store ((memAddr + 4).setWidth 64) 4]

/-- The data accesses of a function of the C extension. -/
def transfers (w : BitVec 32) (s : System T) (code : OpCCodes) : List Transfer :=
  match loadOp code, storeOp code with
  | some op, _ => op.transfers w s
  | _, some op => op.transfers w s
  | none, none => if code = .OP_C_FSW then transfersFSW w s else []

end CExtension

namespace AExtension

/-- The data accesses of a function of the A extension, all at one 32-bit address. -/
def transfers (w : BitVec 32) (s : System T) (code : OpACodes) : List Transfer :=
  let memAddr : BitVec 64 := ((addr w s).setWidth 32).setWidth 64
  match code with
  | .OP_A_LR => if getRs2 w = 0 then [.load memAddr 4] else []
  | .OP_A_SC => if (addr w s).setWidth 32 ∈ s.tlbAEntries then [.store memAddr 4] else []
  | .OP_A_ERROR => []
  | _ => [.load memAddr 4, .store memAddr 4]

end AExtension

/-- The data accesses of a decoded word, in their order. -/
def transfers (w : BitVec 32) (s : System T) : Decoded → List Transfer
  | .base code => BaseIsa.transfers w s code
  | .c code => CExtension.transfers w s code
  | .a code => AExtension.transfers w s code
  | _ => []

/-- The host has no result: a compressed shift past the width, or a 64-bit quotient out of range. -/
def HostUndefined (w : BitVec 32) (s : System T) : Decoded → Prop
  | .c code => ∃ x ∈ CExtension.hostShift s w code, ¬x.InRange
  | .m .OP_M_DIV | .m .OP_M_REM =>
    T = .RV64 ∧ Overflows (s.regs.getValue (getRs1 w)) (s.regs.getValue (getRs2 w))
  | _ => False

instance HostUndefined.decidable (w : BitVec 32) (s : System T) (d : Decoded) :
    Decidable (HostUndefined w s d) := by
  unfold HostUndefined
  split <;> infer_instance

/-- The fault of a decoded word. -/
def execFault (w : BitVec 32) (s : System T) (d : Decoded) : Option Fault :=
  if HostUndefined w s d then some .undefinedBehaviour
  else firstFault (transfers w s d)

/-- The fault of a fetch: the direct pointer is not checked at all, and the bus keeps the status of
the last fetch from `TO_HOST_ADDRESS` on. -/
def fetchFault (s : System T) : Option Fault :=
  let pc : BitVec 64 := s.regs.registerPC.setWidth 64
  if s.dmiPtrValid then
    if pc.toNat + 4 ≤ Memory.SIZE then none else some .undefinedBehaviour
  else if TO_HOST_ADDRESS ≤ pc.toNat ∧ (fetchTrans s).isResponseError = false then none
  else busFault pc 4 (.scReportError "CPU base" "Read memory")

/-- The fault of a step. -/
def stepFault (s : System T) : Option Fault :=
  (fetchFault s).or (match fetch.run s with
    | .ok w s₁ => execFault w s₁ (decodeCascade T w)
    | .error .. => none)

/-! ## Accesses -/

theorem failure_bTransport (trans : Payload) (s : System T) :
    failure (bTransport trans) s =
      match BusCtrl.bTransport s.bus s.host trans with
      | .ok _ => none
      | .error e => some e := by
  cases h : BusCtrl.bTransport s.bus s.host trans with
  | ok r => exact failure_of_ok (run_bTransport h)
  | error e =>
    have hr : (bTransport trans).run s = .error e s := by
      rw [bTransport, run_get_bind, h]
      rfl
    exact failure_of_error hr

/-- Below `TO_HOST_ADDRESS` a transaction of the CPU is completed unless it runs over the end of the
array. -/
theorem BusCtrl.bTransport_fault {bus : Bus} {host : Host} {trans : Payload} (refused : Fault)
    (hlt : trans.address.toNat < TO_HOST_ADDRESS) (hc : trans.command ≠ .ignore)
    (hb : trans.byteEnable = false) (hl : trans.dataLength ≤ 4) (hw : trans.streamingWidth = 4) :
    (match bTransport bus host trans with
      | .ok _ => none
      | .error e => some e) = busFault trans.address trans.dataLength refused := by
  rw [busFault, if_neg (not_le.mpr hlt)]
  by_cases ha : trans.address.toNat < Memory.SIZE
  · rw [bTransport_select ha]
    cases hcmd : trans.command with
    | ignore => exact absurd hcmd hc
    | read =>
      rw [Memory.bTransport_read_eq ha hb hl hw hcmd]
      by_cases hfit : trans.address.toNat + trans.dataLength ≤ Memory.SIZE
      · rw [if_pos hfit, if_neg fun h => not_lt.mpr hfit h.2]
      · rw [if_neg hfit, if_pos ⟨ha, not_le.mp hfit⟩]
    | write =>
      rw [Memory.bTransport_write_eq ha hb hl hw hcmd]
      by_cases hfit : trans.address.toNat + trans.dataLength ≤ Memory.SIZE
      · rw [if_pos hfit, if_neg fun h => not_lt.mpr hfit h.2]
      · rw [if_neg hfit, if_pos ⟨ha, not_le.mp hfit⟩]
  · rw [if_neg fun h => ha h.1, bTransport, if_neg (not_toHost hlt), Memory.bTransport_rejects ha]
    split_ifs <;> rfl

/-- A transaction that must come back as `ok`. -/
theorem failure_transport {trans : Payload} {k : Payload → Sim T α}
    (hs : trans.responseStatus = .incomplete) (hc : trans.command ≠ .ignore)
    (hb : trans.byteEnable = false) (hl : trans.dataLength ≤ 4) (hw : trans.streamingWidth = 4)
    (hk : ∀ p, Returns (k p)) (e : Fault) (s : System T) :
    failure (bTransport trans >>= fun p => do
      if p.isResponseError then throw e
      k p) s = busFault trans.address trans.dataLength e := by
  by_cases hlt : trans.address.toNat < TO_HOST_ADDRESS
  · have hrest : ∀ a t, (bTransport trans).run s = .ok a t →
        failure (do
          if a.isResponseError then throw e
          k a : Sim T α) t = none := by
      intro a t h
      obtain ⟨r, hr, rfl, -⟩ := bTransport_eq_ok h
      rw [BusCtrl.bTransport_ok hlt hr]
      exact hk _ _
    rw [failure_bind hrest, Option.or_none, failure_bTransport,
      BusCtrl.bTransport_fault e hlt hc hb hl hw]
  · have hle := not_lt.mp hlt
    have he : trans.isResponseError = true := by
      unfold Payload.isResponseError
      rw [hs]
      rfl
    rw [failure_bind_ok (run_bTransport (BusCtrl.bTransport_toHost s.bus s.host hle)), he, busFault,
      if_pos hle]
    rfl

theorem failure_readDataMem (h : size ≤ 4) (s : System T) :
    failure (readDataMem a size) s = (Transfer.load a size).fault :=
  failure_transport (k := fun p => pure p.data) rfl (fun h => by cases h) rfl h rfl
    (fun p => Returns.pure p.data) _ s

theorem failure_writeDataMem {data : BitVec 32} (h : size ≤ 4) (s : System T) :
    failure (writeDataMem a data size) s = (Transfer.store a size).fault :=
  failure_transport (k := fun _ => pure ()) rfl (fun h => by cases h) rfl h rfl
    (fun _ => Returns.pure ()) _ s

theorem firstFault_singleton (x : Transfer) : firstFault [x] = x.fault := Option.or_none

theorem firstFault_pair (x y : Transfer) : firstFault [x, y] = x.fault.or y.fault :=
  congrArg x.fault.or Option.or_none

section Words

variable {b : BitVec 64} (s)

/-- Two words, one behind the other. -/
theorem failure_readDouble {k : BitVec 32 → BitVec 32 → Sim T α}
    (hk : ∀ x y, Returns (k x y)) :
    failure (readDataMem a 4 >>= fun x => readDataMem b 4 >>= fun y => k x y) s =
      firstFault [.load a 4, .load b 4] := by
  have hrest (x : BitVec 32) (t : System T) (_ : (readDataMem a 4).run s = .ok x t) :
      failure (readDataMem b 4 >>= fun y => k x y) t = (Transfer.load b 4).fault := by
    rw [failure_bind_returns (hk x), failure_readDataMem le_rfl]
  rw [failure_bind hrest, failure_readDataMem le_rfl, firstFault_pair]

theorem failure_writeDouble {x y : BitVec 32} {k : Sim T α} (hk : Returns k) :
    failure (writeDataMem a x 4 >>= fun _ => writeDataMem b y 4 >>= fun _ => k) s =
      firstFault [.store a 4, .store b 4] := by
  have hrest (u : Unit) (t : System T) (_ : (writeDataMem a x 4).run s = .ok u t) :
      failure (writeDataMem b y 4 >>= fun _ => k) t = (Transfer.store b 4).fault := by
    rw [failure_bind_returns fun _ => hk, failure_writeDataMem le_rfl]
  rw [failure_bind hrest, failure_writeDataMem le_rfl, firstFault_pair]

/-- A word that is loaded and then overwritten. -/
theorem failure_readWrite {k : BitVec 32 → Sim T α}
    (hk : ∀ x t, failure (k x) t = (Transfer.store b 4).fault) :
    failure (readDataMem a 4 >>= k) s = firstFault [.load a 4, .store b 4] := by
  rw [failure_bind fun x t _ => hk x t, failure_readDataMem le_rfl, firstFault_pair]

end Words

/-! ## Loads and stores -/

section Bodies

variable (s w)

theorem BaseIsa.failure_execLoad {data : BitVec 32 → BitVec T.xlen} (h : size ≤ 4) :
    failure (execLoad w size data) s =
      firstFault [.load ((getImmI w T + s.regs.getValue (getRs1 w)).setWidth 64) size] := by
  rw [execLoad, failure_bind_ok (run_getValue s _), failure_bind_returns fun _ _ => rfl,
    failure_readDataMem h, firstFault_singleton]

theorem BaseIsa.failure_execStore (h : size ≤ 4) :
    failure (execStore (T := T) w size) s =
      firstFault [.store ((getImmS w T + s.regs.getValue (getRs1 w)).setWidth 64) size] := by
  rw [execStore, failure_bind_ok (run_getValue s _), failure_bind_ok (run_getValue s _),
    failure_bind_returns fun _ _ => rfl, failure_writeDataMem h, firstFault_singleton]

theorem CExtension.failure_execLoadWord (rd rs1 : ℕ) (imm : BitVec 32) :
    failure (execLoadWord rd rs1 imm) s =
      firstFault [.load ((imm.setWidth T.xlen + s.regs.getValue rs1).setWidth 64) 4] := by
  rw [execLoadWord, failure_bind_ok (run_getValue s _), failure_bind_returns fun _ _ => rfl,
    failure_readDataMem le_rfl, firstFault_singleton]

theorem CExtension.failure_execStoreWord {rs1 rs2 : ℕ} {imm : BitVec 32}
    (h : imm.signExtend T.xlen = imm.setWidth T.xlen) :
    failure (execStoreWord rs1 rs2 imm) s = firstFault
      [.store (((imm.setWidth T.xlen + s.regs.getValue rs1).setWidth 32).setWidth 64) 4] := by
  rw [execStoreWord, failure_bind_ok (run_getValue s _), failure_bind_ok (run_getValue s _),
    failure_bind_returns fun _ _ => rfl, failure_writeDataMem le_rfl, firstFault_singleton, h]

theorem CExtension.failure_execLoadDouble (rd rs1 : ℕ) (imm : BitVec 32) :
    failure (execLoadDouble (T := T) rd rs1 imm) s = firstFault
      [.load ((imm.setWidth T.xlen + s.regs.getValue rs1).setWidth 64) 4,
        .load ((imm.setWidth T.xlen + s.regs.getValue rs1 + 4).setWidth 64) 4] := by
  rw [execLoadDouble, failure_bind_ok (run_getValue s _)]
  exact failure_readDouble s fun _ _ _ => rfl

theorem CExtension.failure_execStoreDouble (rs1 rs2 : ℕ) (imm : BitVec 32) :
    failure (execStoreDouble (T := T) rs1 rs2 imm) s = firstFault
      [.store ((imm.setWidth T.xlen + s.regs.getValue rs1).setWidth 64) 4,
        .store ((imm.setWidth T.xlen + s.regs.getValue rs1 + 4).setWidth 64) 4] := by
  rw [execStoreDouble, failure_bind_ok (run_getValue s _), failure_bind_ok (run_getValue s _)]
  exact failure_writeDouble s (Returns.pure _)

end Bodies

theorem LoadOp.failure_exec (op : LoadOp) (w : BitVec 32) (s : System T) :
    failure (op.exec w) s = firstFault (op.transfers w s) := by
  cases op with
  | LD =>
    rw [LoadOp.exec, BaseIsa.execLD, failure_bind_ok (run_getValue s _)]
    exact failure_readDouble s fun _ _ _ => rfl
  | C_LWSP =>
    rw [LoadOp.exec, CExtension.execLWSP, failure_bind_ok (run_getValue s _),
      failure_bind_returns fun _ _ => rfl, failure_readDataMem le_rfl]
    exact (firstFault_singleton _).symm
  | C_LW => exact CExtension.failure_execLoadWord s _ _ _
  | C_LD => exact CExtension.failure_execLoadDouble s _ _ _
  | C_LDSP => exact CExtension.failure_execLoadDouble s _ _ _
  | LB | LH | LW | LBU | LHU | LWU => exact BaseIsa.failure_execLoad s w (by decide)

theorem StoreOp.failure_exec (op : StoreOp) (w : BitVec 32) (s : System T) :
    failure (op.exec w) s = firstFault (op.transfers w s) := by
  cases op with
  | SD =>
    rw [StoreOp.exec, BaseIsa.execSD, failure_bind_ok (run_getValue s _),
      failure_bind_ok (run_getValue s _)]
    exact failure_writeDouble s (Returns.pure _)
  | C_SW => exact CExtension.failure_execStoreWord s (CExtension.signExtend_getImmL w _)
  | C_SWSP => exact CExtension.failure_execStoreWord s (CExtension.signExtend_getImmCSS w _)
  | C_SD => exact CExtension.failure_execStoreDouble s _ _ _
  | C_SDSP => exact CExtension.failure_execStoreDouble s _ _ _
  | SB | SH | SW => exact BaseIsa.failure_execStore s w (by decide)

/-! ## The other instructions -/

theorem returns_incPC_return (c b : Bool) {x : Sim T Unit} (hx : Returns x) :
    Returns (do
      if c then x
      return b : Sim T Bool) := by
  cases c with
  | false => exact Returns.pure b
  | true => exact Returns.bind hx fun _ => Returns.pure b

namespace BaseIsa

variable (w s)

theorem failure_next (x : Sim T Bool) : failure (pcNext x) s = failure x s :=
  failure_bind_returns fun _ => Returns.pure _

/-- A shift, whose count the function has checked or masked. -/
theorem failure_shift {code : OpCodes} {x : HostShift} (h : hostShift s w code = some x) :
    failure (execDecoded w (.base code)) s = none :=
  failure_of_ok ((run_hostShift h).trans (if_pos (inRange h)))

/-- A shift that refuses a count past the limit. -/
theorem failure_execShiftImmChecked {rs2 limit mask : ℕ}
    {op : BitVec T.xlen → ℕ → Sim T (BitVec T.xlen)} (hop : ∀ x n, n < limit → Returns (op x n)) :
    failure (execShiftImmChecked w rs2 limit mask op) s = none := by
  rw [execShiftImmChecked]
  split
  next => rfl
  next h =>
    rw [execShiftImm, failure_bind_ok (run_getValue s _)]
    exact Returns.bind (hop _ _ (Nat.and_le_left.trans_lt (not_le.mp h))) (fun _ _ => rfl) s

theorem returns_shl {n count : ℕ} (x : BitVec n) (h : count < n) :
    Returns (shl x count : Sim T (BitVec n)) := fun t => failure_of_ok (run_shl t x h)

theorem returns_ushr {n count : ℕ} (x : BitVec n) (h : count < n) :
    Returns (ushr x count : Sim T (BitVec n)) := fun t => failure_of_ok (run_ushr t x h)

theorem returns_shiftWord {shift : BitVec 32 → ℕ → Sim T (BitVec 32)} {count : ℕ}
    (x : BitVec T.xlen) (h : Returns (shift (x.setWidth 32) count)) :
    Returns (shiftWord shift x count) := Returns.bind h fun _ => Returns.pure _

theorem failure_execBranch (cond : BitVec T.xlen → BitVec T.xlen → Bool) :
    failure (execBranch w cond) s = none := by
  rw [execBranch, failure_bind_ok (run_getValue s _), failure_bind_ok (run_getValue s _)]
  split <;> rfl

theorem failure_execCSRRW : failure (execCSRRW w) s = none := by
  rw [execCSRRW, failure_bind_ok (run_getCSR s _), failure_bind_ok (run_getValue s _)]
  split <;> rfl

theorem failure_execFENCE : failure execFENCE s =
    firstFault [.load ((s.regs.registerPC.setWidth 32 + 4 : BitVec 32).setWidth 64) 4] := by
  have hrest (x : BitVec 32) : Returns (do
      if x = 0x00000073 then scStop
      return true : Sim T Bool) := by
    intro t
    split <;> rfl
  rw [execFENCE, failure_bind_ok (run_getPC s), failure_bind_returns hrest,
    failure_readDataMem le_rfl, firstFault_singleton]

theorem failure_execCSRRxI (op : BitVec T.xlen → BitVec T.xlen → BitVec T.xlen) :
    failure (execCSRRxI w op) s = none := by
  rw [execCSRRxI]
  split <;> rfl

theorem failure_execDecoded (code : OpCodes) :
    failure (execDecoded w (.base code)) s = firstFault (transfers w s code) := by
  have hexec : failure (execDecoded w (.base code)) s = failure (execInstruction w code) s :=
    failure_bind_returns fun _ => returns_incPC_return _ _ fun _ => rfl
  have hnext {x : Sim T Bool} (h : execInstruction w code = pcNext x)
      (hx : failure x s = firstFault (transfers w s code)) :
      failure (execDecoded w (.base code)) s = firstFault (transfers w s code) := by
    rw [hexec, h, failure_next, hx]
  cases code with
  | OP_LB => exact hnext rfl (LoadOp.LB.failure_exec w s)
  | OP_LH => exact hnext rfl (LoadOp.LH.failure_exec w s)
  | OP_LW => exact hnext rfl (LoadOp.LW.failure_exec w s)
  | OP_LBU => exact hnext rfl (LoadOp.LBU.failure_exec w s)
  | OP_LHU => exact hnext rfl (LoadOp.LHU.failure_exec w s)
  | OP_LWU => exact hnext rfl (LoadOp.LWU.failure_exec w s)
  | OP_LD => exact hnext rfl (LoadOp.LD.failure_exec w s)
  | OP_SB => exact hnext rfl (StoreOp.SB.failure_exec w s)
  | OP_SH => exact hnext rfl (StoreOp.SH.failure_exec w s)
  | OP_SW => exact hnext rfl (StoreOp.SW.failure_exec w s)
  | OP_SD => exact hnext rfl (StoreOp.SD.failure_exec w s)
  | OP_FENCE => exact hnext rfl (failure_execFENCE s)
  | OP_SRLI | OP_SRAI | OP_SLL | OP_SRL | OP_SRA | OP_SRAIW | OP_SLLW | OP_SRLW | OP_SRAW =>
    exact failure_shift s w rfl
  | OP_SLLI =>
    rw [hexec]
    refine (failure_bind_returns fun _ => Returns.pure _).trans ?_
    cases T <;> exact failure_execShiftImmChecked s w fun x _ => returns_shl x
  | OP_SLLIW =>
    rw [hexec]
    refine (failure_next s _).trans (failure_execShiftImmChecked s w fun x _ h => ?_)
    exact returns_shiftWord x (returns_shl _ h)
  | OP_SRLIW =>
    rw [hexec]
    refine (failure_next s _).trans (failure_execShiftImmChecked s w fun x _ h => ?_)
    exact returns_shiftWord _ (returns_ushr _ h)
  | OP_BEQ | OP_BNE | OP_BLT | OP_BGE | OP_BLTU | OP_BGEU =>
    rw [hexec]
    exact (failure_bind_returns fun _ => Returns.pure _).trans (failure_execBranch s w _)
  | OP_CSRRW => exact hnext rfl (failure_execCSRRW s w)
  | OP_CSRRS => exact hnext rfl (by rw [execCSRRS]; split <;> rfl)
  | OP_CSRRC => exact hnext rfl (by rw [execCSRRC]; split <;> rfl)
  | OP_CSRRWI => exact hnext rfl (by rw [execCSRRWI]; split <;> rfl)
  | OP_CSRRSI => exact hnext rfl (failure_execCSRRxI s w _)
  | OP_CSRRCI => exact hnext rfl (failure_execCSRRxI s w _)
  | _ => rfl

end BaseIsa

namespace CExtension

variable (w s)

theorem failure_execBranch (cond : BitVec T.xlen → Bool) :
    failure (execBranch w cond) s = none := by
  rw [execBranch, failure_bind_ok (run_getValue s _)]
  split <;> rfl

theorem failure_execADDI4SPN : failure (execADDI4SPN (T := T) w) s = none := by
  rw [execADDI4SPN]
  split <;> rfl

theorem failure_execADDI16SP : failure (execADDI16SP (T := T) w) s = none := by
  rw [execADDI16SP]
  split <;> rfl

theorem failure_execFSW_SD : failure (execFSW_SD w) s = firstFault (transfersFSW w s) := by
  rw [execFSW_SD, failure_bind_ok (run_getValue s _), failure_bind_ok (run_getValue s _),
    transfersFSW, StoreOp.addr, StoreOp.imm, ← signExtend_getImmL w _]
  exact failure_writeDouble s (Returns.pure _)

theorem failure_execDecoded (code : OpCCodes) :
    failure (execDecoded w (.c code)) s = execFault w s (.c code) := by
  have hexec : failure (execDecoded w (.c code)) s = failure (execInstruction w code) s :=
    failure_bind_returns fun _ => returns_incPC_return _ _ fun _ => rfl
  have hplain (hs : hostShift s w code = none)
      (hx : failure (execInstruction (T := T) w code) s = firstFault (transfers w s code)) :
      failure (execDecoded w (.c code)) s = execFault w s (.c code) := by
    have hn : ¬HostUndefined w s (.c code) := by
      rintro ⟨y, hy, -⟩
      cases hs.symm.trans hy
    rw [hexec, execFault, if_neg hn]
    exact hx
  have hnext {x : Sim T Bool} (hs : hostShift s w code = none)
      (h : execInstruction w code = pcNext x) (hx : failure x s = firstFault (transfers w s code)) :
      failure (execDecoded w (.c code)) s = execFault w s (.c code) := by
    refine hplain hs ?_
    rw [h]
    exact (failure_bind_returns fun _ => Returns.pure _).trans hx
  have hshift {x : HostShift} (h : hostShift s w code = some x) (ht : transfers w s code = []) :
      failure (execDecoded w (.c code)) s = execFault w s (.c code) := by
    by_cases hr : x.InRange
    · have hn : ¬HostUndefined w s (.c code) := by
        rintro ⟨y, hy, hy'⟩
        cases h.symm.trans hy
        exact hy' hr
      rw [failure_of_ok ((run_hostShift h).trans (if_pos hr)), execFault, if_neg hn]
      exact (congrArg firstFault ht).symm
    · have hu : HostUndefined w s (.c code) := ⟨x, h, hr⟩
      rw [failure_of_error ((run_hostShift h).trans (if_neg hr)), execFault, if_pos hu]
  cases code with
  | OP_C_LW => exact hnext rfl rfl (LoadOp.C_LW.failure_exec w s)
  | OP_C_LWSP => exact hnext rfl rfl (LoadOp.C_LWSP.failure_exec w s)
  | OP_C_LD => exact hnext rfl rfl (LoadOp.C_LD.failure_exec w s)
  | OP_C_LDSP => exact hnext rfl rfl (LoadOp.C_LDSP.failure_exec w s)
  | OP_C_SW => exact hnext rfl rfl (StoreOp.C_SW.failure_exec w s)
  | OP_C_SWSP => exact hnext rfl rfl (StoreOp.C_SWSP.failure_exec w s)
  | OP_C_SD => exact hnext rfl rfl (StoreOp.C_SD.failure_exec w s)
  | OP_C_SDSP => exact hnext rfl rfl (StoreOp.C_SDSP.failure_exec w s)
  | OP_C_FSW => exact hnext rfl rfl (failure_execFSW_SD s w)
  | OP_C_SRLI | OP_C_SRAI | OP_C_SLLI => exact hshift rfl rfl
  | OP_C_ADDI16SP => exact hnext rfl rfl (failure_execADDI16SP s w)
  | OP_C_BEQZ | OP_C_BNEZ =>
    exact hplain rfl ((failure_bind_returns fun _ => Returns.pure _).trans
      (failure_execBranch s w _))
  | OP_C_ADDI4SPN =>
    exact hplain rfl ((failure_bind_returns fun _ => Returns.pure _).trans
      (failure_execADDI4SPN s w))
  | _ => exact hplain rfl rfl

end CExtension

/-! ## Divisions -/

namespace MExtension

theorem failure_execOp (w : BitVec 32) (s : System T)
    (op : BitVec T.xlen → BitVec T.xlen → Sim T (BitVec T.xlen)) :
    failure (execOp w op) s =
      failure (op (s.regs.getValue (getRs1 w)) (s.regs.getValue (getRs2 w))) s := by
  rw [execOp, failure_bind_ok (run_getValue s _), failure_bind_ok (run_getValue s _),
    failure_bind_returns fun _ _ => rfl]

section Host

variable {n : ℕ} {x y : BitVec n} (s) (op : BitVec n → BitVec n → BitVec n)

theorem failure_sdivHost (h0 : y ≠ 0) :
    failure (sdivHost op x y) s = if Overflows x y then some .undefinedBehaviour else none := by
  split
  next h => exact failure_of_error (run_sdivHost_overflow op h)
  next h => exact failure_of_ok (run_sdivHost op h0 h)

theorem returns_udivHost (h0 : y ≠ 0) : Returns (udivHost op x y : Sim T (BitVec n)) :=
  fun _ => failure_of_ok (run_udivHost op h0)

end Host

/-- The guard of `DIV` and `REM` is that of 32-bit operands. -/
theorem failure_guarded (s : System T) (op : BitVec T.xlen → BitVec T.xlen → BitVec T.xlen)
    (x y byZero guarded : BitVec T.xlen) :
    failure (if y = 0 then return byZero
      else if y = -1 ∧ x = minInt32 T.xlen then return guarded
      else sdivHost op x y : Sim T (BitVec T.xlen)) s =
        if T = .RV64 ∧ Overflows x y then some .undefinedBehaviour else none := by
  split
  next h0 =>
    subst h0
    have hn : ¬(T = .RV64 ∧ Overflows x 0) := by
      rintro ⟨rfl, -, h⟩
      exact absurd h (by decide)
    rw [if_neg hn]
    rfl
  next h0 =>
    split
    next hg =>
      have hn : ¬(T = .RV64 ∧ Overflows x y) := by
        rintro ⟨rfl, h, -⟩
        exact absurd (hg.2.symm.trans h) (by decide)
      rw [if_neg hn]
      rfl
    next hg =>
      rw [failure_sdivHost s op h0]
      cases T with
      | RV32 =>
        rw [if_neg fun h => hg ⟨h.2, h.1⟩, if_neg fun h => by cases h.1]
      | RV64 => simp only [true_and]

/-- A quotient of words, whose guard keeps the host in range. -/
theorem failure_wordDiv (op : BitVec 32 → BitVec 32 → BitVec 32) {x y : BitVec 32} (h0 : y ≠ 0)
    (h : y = -1 → x ≠ 0x80000000) :
    Returns (do return (← sdivHost op x y).signExtend T.xlen : Sim T (BitVec T.xlen)) := by
  intro s
  have hn : ¬Overflows x y := fun ho => h ho.2 ho.1
  rw [failure_bind_returns fun _ => Returns.pure _, failure_sdivHost s op h0, if_neg hn]

theorem failure_execDecoded (w : BitVec 32) (s : System T) (code : OpMCodes) :
    failure (execDecoded w (.m code)) s = execFault w s (.m code) := by
  have hexec {x : Sim T Unit} (h : execInstruction w code = x >>= fun _ => pure true) :
      failure (execDecoded w (.m code)) s = failure x s := by
    refine (failure_bind_returns fun _ => returns_incPC_return _ _ fun _ => rfl).trans ?_
    rw [h, failure_bind_returns fun _ => Returns.pure _]
  cases code with
  | OP_M_DIV =>
    rw [hexec rfl, execDIV, failure_execOp, failure_guarded]
    exact if_congr Iff.rfl rfl rfl
  | OP_M_REM =>
    rw [hexec rfl, execREM, failure_execOp, failure_guarded]
    exact if_congr Iff.rfl rfl rfl
  | OP_M_DIVU =>
    rw [hexec rfl, execDIVU, failure_execOp]
    split
    next => rfl
    next h0 => exact returns_udivHost _ h0 s
  | OP_M_REMU =>
    rw [hexec rfl, execREMU, failure_execOp]
    split
    next => rfl
    next h0 => exact returns_udivHost _ h0 s
  | OP_M_DIVW =>
    rw [hexec rfl, execDIVW, failure_execOp]
    dsimp only
    split
    next => rfl
    next h0 =>
      split
      next => rfl
      next hg => exact failure_wordDiv _ h0 (fun hy hx => hg ⟨hy, hx⟩) s
  | OP_M_REMW =>
    rw [hexec rfl, execREMW, failure_execOp]
    dsimp only
    split
    next => rfl
    next h0 =>
      split
      next => rfl
      next hg => exact failure_wordDiv _ h0 (fun hy => absurd hy hg) s
  | OP_M_DIVUW =>
    rw [hexec rfl, execDIVUW, failure_execOp]
    dsimp only
    split
    next => rfl
    next h0 =>
      split
      next => rfl
      next => exact Returns.bind (returns_udivHost _ h0) (fun _ => Returns.pure _) s
  | OP_M_REMUW =>
    rw [hexec rfl, execREMUW, failure_execOp]
    dsimp only
    split
    next => rfl
    next h0 => exact Returns.bind (returns_udivHost _ h0) (fun _ => Returns.pure _) s
  | OP_M_MUL | OP_M_MULH | OP_M_MULHSU | OP_M_MULHU | OP_M_MULW | OP_M_ERROR => rfl

end MExtension

/-! ## Atomics -/

namespace AExtension

variable (w s)

/-- Behind its load the address of an atomic instruction is written. -/
theorem failure_execAmo (op : BitVec 32 → BitVec 32 → BitVec 32) :
    failure (execAmo (T := T) w op) s =
      firstFault [.load (((addr w s).setWidth 32).setWidth 64) 4,
        .store (((addr w s).setWidth 32).setWidth 64) 4] := by
  rw [execAmo, failure_bind_ok (run_getValue s _)]
  refine failure_readWrite s fun x t => ?_
  rw [failure_bind_ok (run_setValue t _ _), failure_bind_ok (run_getValue _ _),
    failure_bind_returns fun _ => Returns.pure _, failure_writeDataMem le_rfl]
  rfl

theorem failure_execAMOSWAP :
    failure (execAMOSWAP (T := T) w) s =
      firstFault [.load (((addr w s).setWidth 32).setWidth 64) 4,
        .store (((addr w s).setWidth 32).setWidth 64) 4] := by
  rw [execAMOSWAP, failure_bind_ok (run_getValue s _)]
  refine failure_readWrite s fun x t => ?_
  rw [failure_bind_ok (run_setValue t _ _), failure_bind_ok (run_getValue _ _),
    failure_bind_ok (run_setValue _ _ _), failure_bind_returns fun _ => Returns.pure _,
    failure_writeDataMem le_rfl]
  rfl

theorem failure_execLR : failure (execLR (T := T) w) s = firstFault (transfers w s .OP_A_LR) := by
  rw [execLR, transfers]
  split
  next => rfl
  next h =>
    rw [if_pos (not_not.mp h), failure_bind_ok (run_getValue s _),
      failure_bind_returns fun _ _ => rfl, failure_readDataMem le_rfl, firstFault_singleton]
    rfl

theorem failure_execSC : failure (execSC (T := T) w) s = firstFault (transfers w s .OP_A_SC) := by
  rw [execSC, transfers, failure_bind_ok (run_getValue s _), failure_bind_ok (run_getValue s _)]
  split
  next h =>
    refine (failure_bind_ok (run_tlbReserved_true h)).trans ?_
    refine (failure_bind_returns fun _ _ => rfl).trans ?_
    rw [failure_writeDataMem le_rfl, firstFault_singleton]
    rfl
  next h => exact (failure_bind_ok (run_tlbReserved_false h)).trans rfl

theorem failure_execDecoded (code : OpACodes) :
    failure (execDecoded w (.a code)) s = firstFault (transfers w s code) := by
  have hexec {x : Sim T Bool} (h : execInstruction w code = x >>= fun _ => pure true) :
      failure (execDecoded w (.a code)) s = failure x s := by
    refine (failure_bind_returns fun _ => returns_incPC_return _ _ fun _ => rfl).trans ?_
    rw [h, failure_bind_returns fun _ => Returns.pure _]
  cases code with
  | OP_A_LR => exact (hexec rfl).trans (failure_execLR s w)
  | OP_A_SC => exact (hexec rfl).trans (failure_execSC s w)
  | OP_A_AMOSWAP => exact (hexec rfl).trans (failure_execAMOSWAP s w)
  | OP_A_ERROR => rfl
  | _ => exact (hexec rfl).trans (failure_execAmo s w _)

end AExtension

/-! ## A step -/

theorem failure_execDecoded (w : BitVec 32) (s : System T) (d : Decoded) :
    failure (execDecoded w d) s = execFault w s d := by
  cases d with
  | base code => exact BaseIsa.failure_execDecoded s w code
  | c code => exact CExtension.failure_execDecoded s w code
  | m code => exact MExtension.failure_execDecoded w s code
  | a code => exact AExtension.failure_execDecoded s w code
  | none => rfl

theorem failure_fetchDmi (s : System T) : failure fetchDmi s =
    if s.regs.registerPC.toNat + 4 ≤ Memory.SIZE then none else some .undefinedBehaviour := by
  have hr := run_fetchDmi s
  split
  next h =>
    rw [if_pos h] at hr
    exact failure_of_ok hr
  next h =>
    rw [if_neg h] at hr
    exact failure_of_error hr

theorem failure_fetchBus (s : System T) : failure fetchBus s =
    if TO_HOST_ADDRESS ≤ (fetchTrans s).address.toNat ∧ (fetchTrans s).isResponseError = false then
      none
    else busFault (fetchTrans s).address 4 (.scReportError "CPU base" "Read memory") := by
  by_cases hlt : (fetchTrans s).address.toNat < TO_HOST_ADDRESS
  · have hfault : (match BusCtrl.bTransport s.bus s.host (fetchTrans s) with
        | .ok _ => none
        | .error e => some e) =
          busFault (fetchTrans s).address 4 (.scReportError "CPU base" "Read memory") :=
      BusCtrl.bTransport_fault _ hlt (fun h => by cases h) rfl le_rfl rfl
    rw [if_neg fun h => not_le.mpr hlt h.1]
    refine Eq.trans ?_ hfault
    cases hb : BusCtrl.bTransport s.bus s.host (fetchTrans s) with
    | ok r =>
      have hr := run_fetchBus_of_ok hb
      rw [BusCtrl.bTransport_ok hlt hb, if_neg Bool.false_ne_true] at hr
      exact failure_of_ok hr
    | error e => exact failure_of_error (run_fetchBus_of_error hb)
  · have hle := not_lt.mp hlt
    have hr := run_fetchBus_of_ok (BusCtrl.bTransport_toHost s.bus s.host hle)
    cases he : (fetchTrans s).isResponseError with
    | false =>
      rw [he, if_neg Bool.false_ne_true] at hr
      rw [if_pos ⟨hle, rfl⟩]
      exact failure_of_ok hr
    | true =>
      rw [he, if_pos rfl] at hr
      rw [if_neg fun h => Bool.false_ne_true h.2.symm, busFault, if_pos hle]
      exact failure_of_error hr

theorem failure_fetch (s : System T) : failure fetch s = fetchFault s := by
  rw [fetch, failure_get_bind, fetchFault]
  dsimp only
  split
  next =>
    rw [failure_bind_returns fun _ _ => rfl, failure_fetchDmi, ← fetchTrans_toNat s]
    rfl
  next =>
    rw [failure_bind_returns fun _ _ => rfl, failure_fetchBus]
    rfl

/-- A step fails exactly as `stepFault` says before it. -/
theorem failure_cpuStep (s : System T) : failure cpuStep s = stepFault s := by
  rw [stepFault, ← failure_fetch]
  cases h : fetch.run s with
  | ok w s₁ =>
    rw [failure_of_ok h, Option.none_or]
    exact (failure_bind_ok h).trans (failure_execDecoded w s₁ _)
  | error e t =>
    rw [failure_of_error h, Option.some_or]
    exact failure_of_error (run_bind_error h)

/-- A step ends in an exception, or has no result, exactly when its fetch has a fault, when its word
has no result on the host, or when one of the accesses of the word has a fault; the first of these
is the exception. -/
theorem cpuStep_error_iff (s : System T) (e : Fault) :
    (∃ t, cpuStep.run s = .error e t) ↔ stepFault s = some e := by
  rw [← failure_cpuStep, failure_eq_some]

end RiscvTlm
