import RiscvTlm.CompressedGrammar
import RiscvTlm.Expansion

/-!
# Shift counts

The shift of the host that each instruction applies to a register value, with the width of its
promoted operand and its count. The base functions check or mask their counts. The compressed ones
take theirs from the sign-extending accessor of `C.ADDI`, so that bit 12 of the word puts the count
out of range.
-/

namespace RiscvTlm

open Isa BitField Prog

variable {T : CpuType} {s t : System T} {w : BitVec 32} {d : Decoded}

/-- A shift that is applied to a register value, and where its result goes. -/
structure HostShift where
  rd : ℕ
  op : ShiftOp
  width : ℕ
  operand : BitVec width
  count : ℕ

/-- The code has a result. -/
def HostShift.InRange (x : HostShift) : Prop := x.count < x.width

instance (x : HostShift) : Decidable x.InRange := inferInstanceAs (Decidable (_ < _))

namespace BaseIsa

open ExtensionBase

/-- `SRLI` and `SRAI` mask the amount. -/
def immCount (T : CpuType) (w : BitVec 32) : ℕ :=
  match T with
  | .RV32 => getRs2 w &&& 0x1F
  | .RV64 => getShamtSlli w &&& 0x3F

/-- `SLLI` checks it first. -/
def slliCount (T : CpuType) (w : BitVec 32) : Option ℕ :=
  match T with
  | .RV32 => if getShamt w ≥ 0x20 then none else some (getShamt w &&& 0x1F)
  | .RV64 => if getShamtSlli w ≥ 0x40 then none else some (getShamtSlli w &&& 0x3F)

/-- `SLLIW` and `SRLIW` check it first. -/
def wordCount (w : BitVec 32) : Option ℕ :=
  if getShamt w ≥ 0x20 then none else some (getShamt w &&& 0x1F)

def regMask : (T : CpuType) → BitVec T.xlen
  | .RV32 => 0x1F#32
  | .RV64 => 0x3F#64

/-- A shift of the whole register. -/
def regShift (s : System T) (w : BitVec 32) (op : ShiftOp) (count : ℕ) : HostShift :=
  ⟨getRd w, op, T.xlen, s.regs.getValue (getRs1 w), count⟩

/-- A shift of its low word. -/
def wordShift (s : System T) (w : BitVec 32) (op : ShiftOp) (count : ℕ) : HostShift :=
  ⟨getRd w, op, 32, (s.regs.getValue (getRs1 w)).setWidth 32, count⟩

/-- The shift of a function of the base extension. -/
def hostShift (s : System T) (w : BitVec 32) : OpCodes → Option HostShift
  | .OP_SLLI => (slliCount T w).map (regShift s w .sll)
  | .OP_SRLI => some (regShift s w .srl (immCount T w))
  | .OP_SRAI => some (regShift s w .sra (immCount T w))
  | .OP_SLL => some (regShift s w .sll (s.regs.getValue (getRs2 w) &&& regMask T).toNat)
  | .OP_SRL => some (regShift s w .srl (s.regs.getValue (getRs2 w) &&& regMask T).toNat)
  | .OP_SRA => some (regShift s w .sra (s.regs.getValue (getRs2 w) &&& regMask T).toNat)
  | .OP_SLLIW => (wordCount w).map (wordShift s w .sll)
  | .OP_SRLIW => (wordCount w).map (wordShift s w .srl)
  | .OP_SRAIW => some (wordShift s w .sra (getShamtSlli w &&& 0x1F))
  | .OP_SLLW => some (wordShift s w .sll (s.regs.getValue (getRs2 w) &&& 0x1F#T.xlen).toNat)
  | .OP_SRLW => some (wordShift s w .srl (s.regs.getValue (getRs2 w) &&& 0x1F#T.xlen).toNat)
  | .OP_SRAW => some (wordShift s w .sra (s.regs.getValue (getRs2 w) &&& 0x1F#T.xlen).toNat)
  | _ => none

end BaseIsa

namespace CExtension

/-- The shift of a function of the C extension. -/
def hostShift (s : System T) (w : BitVec 32) : OpCCodes → Option HostShift
  | .OP_C_SRLI =>
    some ⟨getRs1p w, .srl, T.xlen, s.regs.getValue (getRs1p w), (getImmADDI w).toNat⟩
  | .OP_C_SRAI =>
    some ⟨getRs1p w, .sra, T.xlen, s.regs.getValue (getRs1p w), (getImmADDI w).toNat⟩
  | .OP_C_SLLI =>
    some ⟨getRs1 w, .sll, T.xlen, s.regs.getValue (getRs1 w),
      ((getImmADDI w).signExtend T.xlen).toNat⟩
  | _ => none

end CExtension

/-- The shift that the `Exec` function of a word applies. -/
def hostShift (s : System T) (w : BitVec 32) : Decoded → Option HostShift
  | .base code => BaseIsa.hostShift s w code
  | .c code => CExtension.hostShift s w code
  | _ => none

namespace HostShift

/-- The state with the result, a word one with its sign. -/
def written (s : System T) (x : HostShift) : System T :=
  s.setReg x.rd ((x.op.eval x.operand x.count).signExtend T.xlen)

/-- What the function returns. -/
def outcome (s : System T) (x : HostShift) : EStateM.Result Fault (System T) Bool :=
  if x.InRange then .ok true (x.written s) else .error .undefinedBehaviour s

/-- The state after the PC increment of the extension. -/
def done (s : System T) (x : HostShift) : Decoded → System T
  | .c _ => { x.written s with regs := (x.written s).regs.incPCby2 }
  | _ => { x.written s with regs := (x.written s).regs.incPC }

end HostShift

/-! ## What the functions do with it -/

/-- The operator of the host. -/
def ShiftOp.host {n : ℕ} (op : ShiftOp) : BitVec n → ℕ → Sim T (BitVec n) :=
  match op with
  | .sll => shl
  | .srl => ushr
  | .sra => sshr

section Host

variable {n count : ℕ} (op : ShiftOp) (x : BitVec n) (s)

theorem ShiftOp.run_host (h : count < n) :
    (ShiftOp.host op x count).run s = .ok (op.eval x count) s := by
  cases op with
  | sll => exact run_shl s x h
  | srl => exact run_ushr s x h
  | sra => exact run_sshr s x h

theorem ShiftOp.run_host_error (h : ¬count < n) :
    (ShiftOp.host op x count).run s = .error .undefinedBehaviour s := by
  cases op with
  | sll => exact run_shl_error x h s
  | srl => exact run_ushr_error x h s
  | sra => exact run_sshr_error x h s

end Host

/-- The piece of code computes the shift. -/
def Computes (s : System T) (value : Sim T (BitVec T.xlen)) (x : HostShift) : Prop :=
  (x.InRange → value.run s = .ok ((x.op.eval x.operand x.count).signExtend T.xlen) s) ∧
  (¬x.InRange → value.run s = .error .undefinedBehaviour s)

/-- A function that then writes the result. -/
theorem Computes.run_bind {x : HostShift} {value : Sim T (BitVec T.xlen)} (h : Computes s value x) :
    (do setValue x.rd (← value); return true : Sim T Bool).run s = x.outcome s := by
  unfold HostShift.outcome
  split
  next hr =>
    rw [run_bind_ok (h.1 hr)]
    rfl
  next hr => rw [run_bind_error (h.2 hr)]

theorem run_outcome_base {code : OpCodes} {x : HostShift} {f : Sim T Bool}
    (hc : BaseIsa.execInstruction w code = pcNext f ∨ BaseIsa.execInstruction w code = pcForward f)
    (hf : f.run s = x.outcome s) : (execDecoded w (.base code)).run s =
      if x.InRange then .ok false (x.done s (.base code)) else .error .undefinedBehaviour s := by
  unfold HostShift.outcome at hf
  split at hf
  next h =>
    rw [if_pos h]
    rcases hc with hc | hc
    · exact run_next hc hf
    · exact run_forward hc hf
  next h =>
    rw [if_neg h]
    refine run_bind_error ?_
    rcases hc with hc | hc <;>
    · rw [hc]
      exact run_bind_error hf

theorem run_outcome_c {code : OpCCodes} {x : HostShift} {f : Sim T Bool}
    (hc : CExtension.execInstruction w code = pcNext f) (hf : f.run s = x.outcome s) :
    (execDecoded w (.c code)).run s =
      if x.InRange then .ok false (x.done s (.c code)) else .error .undefinedBehaviour s := by
  unfold HostShift.outcome at hf
  split at hf
  next h =>
    rw [if_pos h]
    exact run_next_c hc hf
  next h =>
    rw [if_neg h]
    exact run_next_c_error hc hf

theorem computes_host {rd count : ℕ} (op : ShiftOp) (v : BitVec T.xlen) :
    Computes s (ShiftOp.host op v count) ⟨rd, op, T.xlen, v, count⟩ := by
  refine ⟨fun h => ?_, fun h => ShiftOp.run_host_error s op v h⟩
  rw [ShiftOp.run_host s op v h, BitVec.signExtend_eq]

theorem computes_word {rd count : ℕ} (op : ShiftOp) {v v' : BitVec T.xlen}
    (hv : v.setWidth 32 = v'.setWidth 32) :
    Computes s (BaseIsa.shiftWord (ShiftOp.host op) v count)
      ⟨rd, op, 32, v'.setWidth 32, count⟩ := by
  unfold BaseIsa.shiftWord
  rw [hv]
  refine ⟨fun h => ?_, fun h => run_bind_error (ShiftOp.run_host_error s op _ h)⟩
  rw [run_bind_ok (ShiftOp.run_host s op _ h)]
  rfl

namespace BaseIsa

open ExtensionBase

theorem run_immediate {x : HostShift} {count : ℕ}
    {f : BitVec T.xlen → ℕ → Sim T (BitVec T.xlen)} (hrd : x.rd = getRd w)
    (hf : Computes s (f (s.regs.getValue (getRs1 w)) count) x) :
    (execShiftImm w count f).run s = x.outcome s := by
  rw [execShiftImm, run_bind_ok (run_getValue s _), ← hrd]
  exact hf.run_bind

theorem run_register {x : HostShift} {mask : BitVec T.xlen}
    {f : BitVec T.xlen → ℕ → Sim T (BitVec T.xlen)} (hrd : x.rd = getRd w)
    (hf : Computes s (f (s.regs.getValue (getRs1 w))
      (s.regs.getValue (getRs2 w) &&& mask).toNat) x) :
    (execShift w mask f).run s = x.outcome s := by
  rw [execShift, run_bind_ok (run_getValue s _), run_bind_ok (run_getValue s _), ← hrd]
  exact hf.run_bind

theorem run_checked {x : HostShift} {rs2 limit mask : ℕ} {shift : ℕ → HostShift}
    {f : BitVec T.xlen → ℕ → Sim T (BitVec T.xlen)}
    (hx : (if rs2 ≥ limit then none else some (rs2 &&& mask)).map shift = some x)
    (hrd : (shift (rs2 &&& mask)).rd = getRd w)
    (hf : Computes s (f (s.regs.getValue (getRs1 w)) (rs2 &&& mask)) (shift (rs2 &&& mask))) :
    (execShiftImmChecked w rs2 limit mask f).run s = x.outcome s := by
  unfold execShiftImmChecked
  split at hx
  next => cases hx
  next hlt =>
    cases hx
    rw [if_neg hlt]
    exact run_immediate hrd hf

/-- A base function returns the shift, or has no result when the count is out of range. -/
theorem run_hostShift {code : OpCodes} {x : HostShift} (h : hostShift s w code = some x) :
    (execDecoded w (.base code)).run s =
      if x.InRange then .ok false (x.done s (.base code)) else .error .undefinedBehaviour s := by
  -- the other functions apply no shift
  cases code <;> try cases h
  case OP_SLLI =>
    refine run_outcome_base (.inr rfl) ?_
    cases T with
    | RV32 => exact run_checked h rfl (computes_host .sll _)
    | RV64 => exact run_checked h rfl (computes_host .sll _)
  case OP_SRLI =>
    refine run_outcome_base (.inl rfl) ?_
    cases T <;> exact run_immediate rfl (computes_host .srl _)
  case OP_SRAI =>
    refine run_outcome_base (.inl rfl) ?_
    cases T <;> exact run_immediate rfl (computes_host .sra _)
  case OP_SLL =>
    refine run_outcome_base (.inl rfl) ?_
    cases T <;> exact run_register rfl (computes_host .sll _)
  case OP_SRL =>
    refine run_outcome_base (.inl rfl) ?_
    cases T <;> exact run_register rfl (computes_host .srl _)
  case OP_SRA =>
    refine run_outcome_base (.inl rfl) ?_
    cases T <;> exact run_register rfl (computes_host .sra _)
  case OP_SLLIW =>
    exact run_outcome_base (.inl rfl) (run_checked h rfl (computes_word .sll rfl))
  case OP_SRLIW =>
    exact run_outcome_base (.inl rfl)
      (run_checked h rfl (computes_word .srl (setWidth_and_wordMask _)))
  case OP_SRAIW =>
    exact run_outcome_base (.inl rfl) (run_immediate rfl (computes_word .sra rfl))
  case OP_SLLW =>
    exact run_outcome_base (.inl rfl)
      (run_register rfl (computes_word .sll (setWidth_and_wordMask _)))
  case OP_SRLW =>
    exact run_outcome_base (.inl rfl)
      (run_register rfl (computes_word .srl (setWidth_and_wordMask _)))
  case OP_SRAW =>
    exact run_outcome_base (.inl rfl)
      (run_register rfl (computes_word .sra (setWidth_and_wordMask _)))

/-! ## Counts of the base functions -/

theorem and_31_lt (n : ℕ) : n &&& 0x1F < 32 :=
  (Nat.and_two_pow_sub_one_eq_mod n 5).trans_lt (Nat.mod_lt _ (by decide))

theorem and_63_lt (n : ℕ) : n &&& 0x3F < 64 :=
  (Nat.and_two_pow_sub_one_eq_mod n 6).trans_lt (Nat.mod_lt _ (by decide))

theorem immCount_lt (T : CpuType) (w : BitVec 32) : immCount T w < T.xlen := by
  cases T with
  | RV32 => exact and_31_lt _
  | RV64 => exact and_63_lt _

theorem slliCount_lt {n : ℕ} (h : slliCount T w = some n) : n < T.xlen := by
  unfold slliCount at h
  cases T with
  | RV32 =>
    dsimp only at h
    split at h
    · cases h
    · cases h
      exact and_31_lt _
  | RV64 =>
    dsimp only at h
    split at h
    · cases h
    · cases h
      exact and_63_lt _

theorem wordCount_lt {n : ℕ} (h : wordCount w = some n) : n < 32 := by
  unfold wordCount at h
  split at h
  · cases h
  · cases h
    exact and_31_lt _

theorem toNat_and_regMask (x : BitVec T.xlen) : (x &&& regMask T).toNat = x.toNat % T.xlen := by
  cases T with
  | RV32 => exact (BitVec.toNat_and _ _).trans (Nat.and_two_pow_sub_one_eq_mod _ 5)
  | RV64 => exact (BitVec.toNat_and _ _).trans (Nat.and_two_pow_sub_one_eq_mod _ 6)

/-- The base functions keep their counts in range. -/
theorem inRange {code : OpCodes} {x : HostShift} (h : hostShift s w code = some x) :
    x.InRange := by
  have hpos : 0 < T.xlen := by cases T <;> decide
  cases code <;> try cases h
  case OP_SLLI =>
    obtain ⟨n, hn, rfl⟩ := Option.map_eq_some_iff.mp h
    exact slliCount_lt hn
  case OP_SLLIW | OP_SRLIW =>
    obtain ⟨n, hn, rfl⟩ := Option.map_eq_some_iff.mp h
    exact wordCount_lt hn
  case OP_SRLI | OP_SRAI => exact immCount_lt T w
  case OP_SRAIW => exact and_31_lt _
  case OP_SLL | OP_SRL | OP_SRA =>
    exact (toNat_and_regMask _).trans_lt (Nat.mod_lt _ hpos)
  case OP_SLLW | OP_SRLW | OP_SRAW =>
    exact (toNat_and_31 _).trans_lt (Nat.mod_lt _ (by decide))

/-- An amount below the limit passes the check and the mask. -/
theorem checked_of_lt {n k : ℕ} (h : n < 2 ^ k) :
    (if n ≥ 2 ^ k then none else some (n &&& (2 ^ k - 1))) = some n := by
  rw [if_neg (not_le.mpr h), and_mask_of_lt h]

section Encodings

variable {op : ShiftOp} {rd rs1 : Reg}

theorem immCount_encode {shamt : BitVec 6}
    (hd : (Instr.shiftImm op rd rs1 shamt).Defined T.xlen) :
    immCount T (encode (.shiftImm op rd rs1 shamt)) = shamt.toNat := by
  obtain ⟨-, -, -, hslli, hrs2⟩ := operands_encode hd
  cases T with
  | RV32 =>
    rw [immCount, hrs2 rfl]
    exact and_mask_of_lt (toNat_shamt_lt hd)
  | RV64 =>
    rw [immCount, hslli]
    exact and_mask_of_lt (k := 6) shamt.isLt

theorem slliCount_encode {shamt : BitVec 6}
    (hd : (Instr.shiftImm op rd rs1 shamt).Defined T.xlen) :
    slliCount T (encode (.shiftImm op rd rs1 shamt)) = some shamt.toNat := by
  obtain ⟨-, -, hshamt, hslli, -⟩ := operands_encode hd
  cases T with
  | RV32 =>
    rw [slliCount, hshamt]
    exact checked_of_lt (toNat_shamt_lt hd)
  | RV64 =>
    rw [slliCount, hslli]
    exact checked_of_lt (k := 6) shamt.isLt

theorem wordCount_encode {shamt : BitVec 5}
    (hd : (Instr.shiftImmW op rd rs1 shamt).Defined T.xlen) :
    wordCount (encode (.shiftImmW op rd rs1 shamt)) = some shamt.toNat := by
  obtain ⟨-, -, hshamt, -⟩ := operands_encode hd
  rw [wordCount, hshamt]
  exact checked_of_lt (k := 5) shamt.isLt

end Encodings

/-- On a defined encoding the count is the amount of the manual. -/
theorem count_encode {i : Instr} {k : ℕ} (hd : i.Defined T.xlen)
    (hk : shiftAmount (registers s) i = some k) :
    ∃ x, RiscvTlm.hostShift s (encode i) (instrCode i) = some x ∧ x.count = k := by
  cases i with
  | shiftImm op rd rs1 shamt =>
    cases hk
    cases op with
    | sll => exact ⟨_, congrArg (Option.map _) (slliCount_encode hd), rfl⟩
    | srl => exact ⟨_, rfl, immCount_encode hd⟩
    | sra => exact ⟨_, rfl, immCount_encode hd⟩
  | shiftImmW op rd rs1 shamt =>
    cases hk
    cases op with
    | sll => exact ⟨_, congrArg (Option.map _) (wordCount_encode hd), rfl⟩
    | srl => exact ⟨_, congrArg (Option.map _) (wordCount_encode hd), rfl⟩
    | sra =>
      obtain ⟨-, -, -, hslli⟩ := operands_encode hd
      refine ⟨_, rfl, ?_⟩
      show getShamtSlli (encode (.shiftImmW .sra rd rs1 shamt)) &&& 0x1F = shamt.toNat
      rw [hslli]
      exact and_mask_of_lt (k := 5) shamt.isLt
  | op op rd rs1 rs2 =>
    obtain ⟨-, -, hrs2⟩ := operands_encode hd
    have hc : (s.regs.getValue (getRs2 (encode (.op op rd rs1 rs2))) &&& regMask T).toNat =
        (registers s rs2).toNat % T.xlen := by
      rw [hrs2]
      exact toNat_and_regMask _
    cases op <;> cases hk <;> exact ⟨_, rfl, hc⟩
  | opW op rd rs1 rs2 =>
    obtain ⟨-, -, hrs2⟩ := operands_encode hd
    have hc : (s.regs.getValue (getRs2 (encode (.opW op rd rs1 rs2))) &&& 0x1F#T.xlen).toNat =
        (registers s rs2).toNat % 32 := by
      rw [hrs2]
      exact toNat_and_31 _
    cases op <;> cases hk <;> exact ⟨_, rfl, hc⟩
  | _ => cases hk

end BaseIsa

namespace CExtension

theorem run_hostShift {code : OpCCodes} {x : HostShift} (h : hostShift s w code = some x) :
    (execDecoded w (.c code)).run s =
      if x.InRange then .ok false (x.done s (.c code)) else .error .undefinedBehaviour s := by
  cases code <;> try cases h
  case OP_C_SRLI =>
    refine run_outcome_c rfl ?_
    rw [execSRLI, execShiftImm, run_bind_ok (run_getValue s _)]
    exact (computes_host .srl _).run_bind
  case OP_C_SRAI =>
    refine run_outcome_c rfl ?_
    rw [execSRAI, execShiftImm, run_bind_ok (run_getValue s _)]
    exact (computes_host .sra _).run_bind
  case OP_C_SLLI =>
    refine run_outcome_c rfl ?_
    rw [execSLLI, run_bind_ok (run_getValue s _)]
    exact (computes_host .sll _).run_bind

/-! ## Counts of the compressed functions -/

/-- The accessor of `C.ADDI`, on every word. -/
theorem getImmADDI_immCI (w : BitVec 32) :
    getImmADDI w = (immCI (w.setWidth 16)).signExtend 32 :=
  getImmADDI_fieldsCI (encodeC_eq rfl (fieldsCI_fields _) rfl)

theorem immCI_lt_iff : (immCI (w.setWidth 16)).toNat < 32 ↔ funct1 w = 0 := by
  rw [funct1_half, ← immCI_top, BitVec.extractLsb'_toNat, Nat.shiftRight_eq_div_pow]
  have h64 := (immCI (w.setWidth 16)).isLt
  omega

/-- The count is the extension of the six bits with their sign to 32 bits or more. -/
theorem count_eq {code : OpCCodes} {x : HostShift} (h : hostShift s w code = some x) :
    x.width = T.xlen ∧
    ∃ n, 32 ≤ n ∧ x.count = ((immCI (w.setWidth 16)).signExtend n).toNat := by
  have himm := getImmADDI_immCI w
  cases code <;> try cases h
  case OP_C_SRLI | OP_C_SRAI => exact ⟨rfl, 32, le_rfl, congrArg BitVec.toNat himm⟩
  case OP_C_SLLI =>
    refine ⟨rfl, T.xlen, T.le_xlen, ?_⟩
    dsimp only
    rw [himm, signExtend_signExtend_of_le _ (by decide)]

/-- In range exactly when the sign, bit 12 of the word, is clear. -/
theorem inRange_iff {code : OpCCodes} {x : HostShift} (h : hostShift s w code = some x) :
    x.InRange ↔ funct1 w = 0 := by
  obtain ⟨hw, n, hn, hc⟩ := count_eq h
  rw [HostShift.InRange, hw, hc, ← immCI_lt_iff]
  constructor
  · intro hr
    by_contra hge
    exact not_lt_toNat_signExtend hge hn hr
  · intro hlt
    rw [toNat_signExtend_of_lt hn hlt]
    exact hlt.trans_le T.le_xlen

/-- On a defined encoding a count in range is the amount. -/
theorem count_encode {c : CInstr} {k : ℕ} (hw : w.setWidth 16 = c.encode)
    (hk : shiftAmount (registers s) c.expand = some k) :
    ∃ x, hostShift s w (compressedCode c) = some x ∧ (funct1 w = 0 → x.count = k) := by
  have hcount {n : ℕ} {shamt : BitVec 6} (hn : 32 ≤ n)
      (hi : getImmADDI w = shamt.signExtend 32) (h0 : funct1 w = 0) :
      ((getImmADDI w).signExtend n).toNat = shamt.toNat := by
    have hs : immCI (w.setWidth 16) = shamt := by
      have he := (getImmADDI_immCI w).symm.trans hi
      have he6 := congrArg (BitVec.setWidth 6) he
      rwa [setWidth_signExtend_of_le _ (by decide), setWidth_signExtend_of_le _ (by decide),
        BitVec.signExtend_eq, BitVec.signExtend_eq] at he6
    have hlt : shamt.toNat < 32 := hs ▸ immCI_lt_iff.mpr h0
    rw [hi, signExtend_signExtend_of_le _ (by decide), toNat_signExtend_of_lt hn hlt]
  cases c with
  | srli rd shamt | srai rd shamt =>
    cases hk
    refine ⟨_, rfl, fun h0 => ?_⟩
    have he := hcount le_rfl (getImmADDI_fieldsCBI hw) h0
    rwa [BitVec.signExtend_eq] at he
  | slli rd shamt =>
    cases hk
    exact ⟨_, rfl, hcount T.le_xlen (getImmADDI_fieldsCI hw)⟩
  | _ => cases hk

end CExtension

/-- Every function that applies a shift. -/
theorem run_hostShift {x : HostShift} (h : hostShift s w d = some x) :
    (execDecoded w d).run s =
      if x.InRange then .ok false (x.done s d) else .error .undefinedBehaviour s := by
  cases d with
  | base code => exact BaseIsa.run_hostShift h
  | c code => exact CExtension.run_hostShift h
  | m code => cases h
  | a code => cases h
  | none => cases h

/-! ## Words -/

/-- The word is a defined encoding of the instruction, or one of the compressed instructions that
expand to it. -/
def Encodes (T : CpuType) (w : BitVec 32) (i : Instr) : Prop :=
  (i.Defined T.xlen ∧ w = encode i) ∨
    ∃ c : CInstr, c.Defined T.xlen ∧ w.setWidth 16 = c.encode ∧ c.expand = i

/-- The count of the shift of the function selected is in range, and so the function returns. On a
defined encoding it is the amount of the instruction. -/
structure ShiftCounts (w : BitVec 32) (s : System T) : Prop where
  inRange : ∀ x, hostShift s w (decodeCascade T w) = some x → x.InRange ∧
    (execDecoded w (decodeCascade T w)).run s = .ok false (x.done s (decodeCascade T w))
  amount : ∀ i k, Encodes T w i → shiftAmount (registers s) i = some k →
    ∃ x, hostShift s w (decodeCascade T w) = some x ∧ x.count = k

/-- A compressed shift with bit 12 set. -/
def CountFromSign (T : CpuType) (w : BitVec 32) : Prop :=
  (∃ code ∈ [OpCCodes.OP_C_SRLI, .OP_C_SRAI, .OP_C_SLLI], decodeCascade T w = .c code) ∧
    CExtension.funct1 w = 1

instance (T : CpuType) (w : BitVec 32) : Decidable (CountFromSign T w) :=
  inferInstanceAs (Decidable (_ ∧ _))

/-- The functions that take their count from the accessor. -/
theorem CExtension.hostShift_isSome {code : OpCCodes} :
    (∃ x, hostShift s w code = some x) ↔ code ∈ [.OP_C_SRLI, .OP_C_SRAI, .OP_C_SLLI] := by
  cases code <;> simp [hostShift]

theorem not_shiftCounts (h : CountFromSign T w) : ¬ShiftCounts w s := by
  intro hs
  obtain ⟨⟨code, hcode, hc⟩, h1⟩ := h
  obtain ⟨x, hx⟩ : ∃ x, CExtension.hostShift s w code = some x :=
    CExtension.hostShift_isSome.mpr hcode
  have hr := (hs.inRange x (hc ▸ hx)).1
  rw [CExtension.inRange_iff hx, h1] at hr
  cases hr

/-- The counts are in range, and those of defined encodings the amounts, exactly for the words that
are no compressed shift with bit 12 set. -/
theorem shiftCounts_iff (w : BitVec 32) (s : System T) :
    ShiftCounts w s ↔ ¬CountFromSign T w := by
  refine ⟨fun hs h => not_shiftCounts h hs, fun h => ⟨fun x hx => ?_, fun i k hi hk => ?_⟩⟩
  · have hr : x.InRange := by
      generalize hd : decodeCascade T w = d at hx
      cases d with
      | base code => exact BaseIsa.inRange hx
      | c code =>
        rw [CExtension.inRange_iff hx]
        have hlt := funct1_lt w
        have hcode := CExtension.hostShift_isSome.mp ⟨x, hx⟩
        have h1 : CExtension.funct1 w ≠ 1 := fun h1 => h ⟨⟨code, hcode, hd⟩, h1⟩
        omega
      | _ => cases hx
    refine ⟨hr, ?_⟩
    rw [run_hostShift hx, if_pos hr]
  · rcases hi with ⟨hdef, rfl⟩ | ⟨c, hdef, hw, rfl⟩
    · rw [decodeCascade_encode]
      exact BaseIsa.count_encode hdef hk
    · have hdec : decodeCascade T w = .c (compressedCode c) := decodeCascade_compressed hdef hw
      obtain ⟨x, hx, hcount⟩ := CExtension.count_encode hw hk
      refine ⟨x, hdec ▸ hx, hcount ?_⟩
      have hlt := funct1_lt w
      have hcode := CExtension.hostShift_isSome.mp ⟨x, hx⟩
      have h1 : CExtension.funct1 w ≠ 1 := fun h1 => h ⟨⟨_, hcode, hdec⟩, h1⟩
      omega

/-- `c.slli x1, 32` with 64-bit registers. -/
theorem not_shiftCounts_slli : ¬ShiftCounts 0x1082 (start .RV64 []) :=
  not_shiftCounts (by decide)

end RiscvTlm
