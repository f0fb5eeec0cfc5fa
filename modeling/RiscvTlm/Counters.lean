import RiscvTlm.CsrInstructions
import RiscvTlm.CpuThread
import RiscvTlm.TimerReads

/-!
# Reading the counters

The counter CSRs give the simulated time: an RV32 program reads it in two halves, at one instant or
in a loop that reads high, low, high until the high words agree, an RV64 program in one read. The
mask for the low half is there for both, so that an RV64 program sees the whole time only as long as
it fits into 32 bits.
-/

namespace RiscvTlm

open Prog Transitions BaseIsa ExtensionBase

variable {T : CpuType} {s t : System T} {w : BitVec 32} {d : Decoded} {c rd : ℕ}

/-- The conversion to `double` and back is exact below `2 ^ 53`. -/
def Host.Exact (host : Host) : Prop := ∀ t : BitVec 64, t.toNat < 2 ^ 53 → host.toDouble t = t

/-- Time does not go back, and its conversion stays exact. -/
def Clock (l : CpuThread T) : Event T → Prop
  | .wait host => l.cpu.host.timeStamp.toNat ≤ host.timeStamp.toNat ∧ host.Exact
  | _ => True

/-- A run in which time passes. -/
abbrev TimedRun (l : CpuThread T) (tr : List (Event T)) (l' : CpuThread T) : Prop :=
  Run CpuThread.next Clock l tr l'

/-! ## Reads of a CSR -/

/-- The CSR that a decoded word reads, and the register it is read into. -/
def csrRead (w : BitVec 32) : Decoded → Option (ℕ × ℕ)
  | .base .OP_CSRRW | .base .OP_CSRRS | .base .OP_CSRRC | .base .OP_CSRRWI =>
    if getRd w = 0 then none else some (getCsr w, getRd w)
  | .base .OP_CSRRSI | .base .OP_CSRRCI =>
    if getRd w = 0 ∨ getRs1 w = 0 then none else some (getCsr w, getRd w)
  | _ => none

/-- The CSR that the next step reads, and the register it is read into. -/
def nextCsrRead (s : System T) : Option (ℕ × ℕ) :=
  (fetched s).bind fun w => csrRead w (decodeCascade T w)

/-- A step that reads `v` from the CSR. -/
structure Reads (l : CpuThread T) (c : ℕ) (v : BitVec T.xlen) (l' : CpuThread T) : Prop where
  step : l.next .cpuStep = some l'
  read : ∃ rd, nextCsrRead l.cpu = some (c, rd) ∧ l'.cpu.regs.getValue rd = v

theorem csrRead_cases (h : csrRead w d = some (c, rd)) : ∃ op : CsrOp,
    d = .base op.code ∧ ¬op.Skips w ∧ c = getCsr w ∧ rd = getRd w ∧ getRd w ≠ 0 := by
  unfold csrRead at h
  split at h
  case h_7 => cases h
  all_goals
    obtain ⟨h0, he⟩ := Option.ite_none_left_eq_some.mp h
    cases he
  · exact ⟨.CSRRW, rfl, id, rfl, rfl, h0⟩
  · exact ⟨.CSRRS, rfl, h0, rfl, rfl, h0⟩
  · exact ⟨.CSRRC, rfl, h0, rfl, rfl, h0⟩
  · exact ⟨.CSRRWI, rfl, id, rfl, rfl, h0⟩
  · exact ⟨.CSRRSI, rfl, fun h => h0 (.inr h), rfl, rfl, fun h => h0 (.inl h)⟩
  · exact ⟨.CSRRCI, rfl, fun h => h0 (.inr h), rfl, rfl, fun h => h0 (.inl h)⟩

/-- What is read is the CSR before the step. -/
theorem getValue_of_csrRead {b : Bool} (h : cpuStep.run s = .ok b t)
    (hr : nextCsrRead s = some (c, rd)) : t.regs.getValue rd = s.regs.getCSR s.host c := by
  obtain ⟨w, s₁, hf, he⟩ := bind_eq_ok h
  obtain ⟨hregs, hhost, -, -⟩ := fetch_frame hf
  rw [nextCsrRead, fetched_eq hf, Option.bind_some] at hr
  obtain ⟨op, hd, hskip, rfl, rfl, h0⟩ := csrRead_cases hr
  have hx := run_csrOp hskip s₁
  rw [← hd] at hx
  obtain ⟨-, rfl⟩ := EStateM.Result.ok.inj (he.symm.trans hx)
  rw [← hregs, ← hhost, Registers.getValue_incPC, csrExchange, Registers.getValue_setCSR,
    Registers.getValue_setValue _ _ _ _ (getRd_lt w), if_pos ⟨rfl, h0⟩]

/-- A step takes no simulated time. -/
theorem cpuStep_host {b : Bool} (h : cpuStep.run s = .ok b t) : t.host = s.host := by
  have hk : Keeps (fun s : System T => s.host) cpuStep := by
    refine keeps_cpuStep ⟨fun _ _ _ => rfl, fun _ _ => rfl, fun _ _ => rfl, fun _ _ => rfl⟩
      ⟨fun _ _ => rfl, fun _ _ _ _ => rfl, fun _ _ => rfl⟩ (fun _ _ _ => rfl) fun cause w s => ?_
    cases cause <;> rfl
  exact hk.eq_ok h

section Time

variable {l l' : CpuThread T} {e : Event T} {tr : List (Event T)} {v : BitVec T.xlen}

/-- The simulated time. -/
def CpuThread.now (l : CpuThread T) : ℕ := l.cpu.host.timeStamp.toNat

theorem Reads.cpu_eq (h : Reads l c v l') :
    v = l.cpu.regs.getCSR l.cpu.host c ∧ l'.cpu.host = l.cpu.host := by
  obtain ⟨hstep, rd, hr, rfl⟩ := h
  cases step_of_next hstep with
  | cpuStep hs => exact ⟨getValue_of_csrRead hs hr, cpuStep_host hs⟩

theorem clock_of_next (hx : l.cpu.host.Exact) (hc : Clock l e) (h : l.next e = some l') :
    l'.cpu.host.Exact ∧ l.now ≤ l'.now := by
  have hkeep : l'.cpu.host = l.cpu.host → l'.cpu.host.Exact ∧ l.now ≤ l'.now := by
    intro hh
    unfold CpuThread.now
    rw [hh]
    exact ⟨hx, le_rfl⟩
  cases step_of_next h with
  | cpuStep hs => exact hkeep (cpuStep_host hs)
  | taken | delayed | callInterrupt => exact hkeep rfl
  | down =>
    refine hkeep ?_
    unfold irqDown
    split <;> rfl
  | wait host => exact ⟨hc.2, hc.1⟩

/-- Time does not go back in a run. -/
theorem clock_of_run (hx : l.cpu.host.Exact) (h : TimedRun l tr l') :
    l'.cpu.host.Exact ∧ l.now ≤ l'.now := by
  refine h.invariant (I := fun l' => l'.cpu.host.Exact ∧ l.now ≤ l'.now) ?_ ⟨hx, le_rfl⟩
  rintro l₁ e l₂ ⟨hx₁, hle⟩ hc hn
  obtain ⟨hx₂, hle₂⟩ := clock_of_next hx₁ hc hn
  exact ⟨hx₂, hle.trans hle₂⟩

end Time

/-! ## The counters -/

inductive Counter
  | cycle
  | mcycle
  | time
  deriving DecidableEq, Repr

namespace Counter

def low : Counter → ℕ
  | cycle => Csr.CYCLE
  | mcycle => Csr.MCYCLE
  | time => Csr.TIME

def high : Counter → ℕ
  | cycle => Csr.CYCLEH
  | mcycle => Csr.MCYCLEH
  | time => Csr.TIMEH

variable (k : Counter)

theorem getCSR_low (regs : Registers T) (host : Host) : regs.getCSR host k.low =
    (host.toDouble host.timeStamp &&& 0x00000000FFFFFFFF#64).setWidth T.xlen := by
  cases k <;> rfl

theorem getCSR_high (regs : Registers T) (host : Host) : regs.getCSR host k.high =
    ((host.toDouble host.timeStamp >>> 32 &&& 0x00000000FFFFFFFF#64).setWidth 32).setWidth
      T.xlen := by
  cases k <;> rfl

end Counter

/-- One pass of the loop from `l` to `l'`: the three words it reads and the time of its low read. -/
structure CounterPass (k : Counter) (l : CpuThread .RV32) (high low high' : BitVec 32)
    (time : BitVec 64) (l' : CpuThread .RV32) : Prop where
  reads : ∃ l₁ l₂ l₃ l₄ tr₁ tr₂, Reads l k.high high l₁ ∧ TimedRun l₁ tr₁ l₂ ∧
    Reads l₂ k.low low l₃ ∧ l₂.cpu.host.timeStamp = time ∧ TimedRun l₃ tr₂ l₄ ∧
    Reads l₄ k.high high' l'

/-- The loop ends with the first pass whose high words agree. -/
inductive CounterLoop (k : Counter) :
    CpuThread .RV32 → BitVec 64 → BitVec 64 → CpuThread .RV32 → Prop
  | accept {l l' : CpuThread .RV32} {high low : BitVec 32} {time : BitVec 64}
      (h : CounterPass k l high low high time l') :
      CounterLoop k l (Timer.word high low) time l'
  | retry {l l₁ l₂ l' : CpuThread .RV32} {high low high' : BitVec 32} {value time time' : BitVec 64}
      {tr : List (Event .RV32)} (h : CounterPass k l high low high' time' l₁) (hne : high ≠ high')
      (hr : TimedRun l₁ tr l₂) (hl : CounterLoop k l₂ value time l') : CounterLoop k l value time l'

/-- A read of a counter from `l` to `l'`, its value and its time. -/
inductive CounterRead (k : Counter) :
    {T : CpuType} → CpuThread T → BitVec 64 → BitVec 64 → CpuThread T → Prop
  | full {l l' : CpuThread .RV64} {v : BitVec 64} (h : Reads l k.low v l') :
      CounterRead k l v l.cpu.host.timeStamp l'
  | highLow {l l₁ l₂ l' : CpuThread .RV32} {high low : BitVec 32} {tr : List (Event .RV32)}
      (hh : Reads l k.high high l₁) (hr : TimedRun l₁ tr l₂) (hnow : l₂.now = l.now)
      (hl : Reads l₂ k.low low l') : CounterRead k l (Timer.word high low) l.cpu.host.timeStamp l'
  | lowHigh {l l₁ l₂ l' : CpuThread .RV32} {high low : BitVec 32} {tr : List (Event .RV32)}
      (hl : Reads l k.low low l₁) (hr : TimedRun l₁ tr l₂) (hnow : l₂.now = l.now)
      (hh : Reads l₂ k.high high l') : CounterRead k l (Timer.word high low) l.cpu.host.timeStamp l'
  | loop {l l' : CpuThread .RV32} {value time : BitVec 64} (h : CounterLoop k l value time l') :
      CounterRead k l value time l'

/-! ## The halves -/

theorem and_low_eq (x : BitVec 64) : x &&& 0x00000000FFFFFFFF#64 = (x.setWidth 32).setWidth 64 := by
  apply BitVec.eq_of_getLsbD_eq
  intro i hi
  have hm : (0x00000000FFFFFFFF#64).getLsbD i = decide (i < 32) := by
    rw [BitVec.getLsbD, BitVec.toNat_ofNat]
    exact Nat.testBit_two_pow_sub_one 32 i
  rw [BitVec.getLsbD_and, hm, BitVec.getLsbD_setWidth, BitVec.getLsbD_setWidth, decide_eq_true hi,
    Bool.true_and, Bool.and_comm]

section Halves

variable {k : Counter}

/-- The low half is all that a read gives, on either width. -/
theorem Reads.low_eq {l l' : CpuThread T} {v : BitVec T.xlen} (h : Reads l k.low v l')
    (hx : l.cpu.host.Exact) (ht : l.now < 2 ^ 53) :
    v = (l.cpu.host.timeStamp.setWidth 32).setWidth T.xlen := by
  rw [h.cpu_eq.1, Counter.getCSR_low, hx _ ht, and_low_eq]
  exact BitVec.setWidth_setWidth_of_le _ T.xlen_le

theorem Reads.high_eq {l l' : CpuThread T} {v : BitVec T.xlen} (h : Reads l k.high v l')
    (hx : l.cpu.host.Exact) (ht : l.now < 2 ^ 53) :
    v = ((l.cpu.host.timeStamp >>> 32).setWidth 32).setWidth T.xlen := by
  rw [h.cpu_eq.1, Counter.getCSR_high, hx _ ht, and_low_eq]
  refine congrArg (BitVec.setWidth T.xlen) ?_
  exact (BitVec.setWidth_setWidth_of_le _ (by decide)).trans (BitVec.setWidth_eq _)

/-- Two halves of times with the same high half make the time of the low one. -/
theorem word_eq {high low : BitVec 32} {x : BitVec 64} (hh : high = (x >>> 32).setWidth 32)
    (hl : low = x.setWidth 32) : Timer.word high low = x := by
  rw [hh, hl, Timer.word_halves]

end Halves

/-! ## Reads of a counter -/

section Times

variable {k : Counter} {l l' : CpuThread .RV32} {high low high' : BitVec 32}
  {value time : BitVec 64}

theorem Reads.now_eq {l l' : CpuThread T} {v : BitVec T.xlen} (h : Reads l c v l') :
    l'.now = l.now := by
  unfold CpuThread.now
  rw [h.cpu_eq.2]

theorem Reads.exact {l l' : CpuThread T} {v : BitVec T.xlen} (h : Reads l c v l')
    (hx : l.cpu.host.Exact) : l'.cpu.host.Exact := by
  rw [h.cpu_eq.2]
  exact hx

/-- The time of a pass lies within it. -/
theorem CounterPass.time_le (h : CounterPass k l high low high' time l') (hx : l.cpu.host.Exact) :
    l'.cpu.host.Exact ∧ l.now ≤ time.toNat ∧ time.toNat ≤ l'.now := by
  obtain ⟨l₁, l₂, l₃, l₄, tr₁, tr₂, h₁, hr₁, h₂, rfl, hr₂, h₃⟩ := h
  obtain ⟨hx₂, hle₁⟩ := clock_of_run (h₁.exact hx) hr₁
  obtain ⟨hx₄, hle₂⟩ := clock_of_run (h₂.exact hx₂) hr₂
  refine ⟨h₃.exact hx₄, ?_, ?_⟩
  · exact h₁.now_eq.symm.le.trans hle₁
  · exact (h₂.now_eq.symm.le.trans hle₂).trans h₃.now_eq.symm.le

/-- A pass that is accepted gives the time of its low read. -/
theorem CounterPass.word_eq (h : CounterPass k l high low high time l') (hx : l.cpu.host.Exact)
    (ht : l'.now < 2 ^ 53) : Timer.word high low = time := by
  obtain ⟨l₁, l₂, l₃, l₄, tr₁, tr₂, h₁, hr₁, h₂, rfl, hr₂, h₃⟩ := h
  obtain ⟨hx₂, hle₁⟩ := clock_of_run (h₁.exact hx) hr₁
  obtain ⟨hx₄, hle₂⟩ := clock_of_run (h₂.exact hx₂) hr₂
  rw [h₁.now_eq] at hle₁
  rw [h₂.now_eq] at hle₂
  rw [h₃.now_eq] at ht
  -- the three reads are in the order of their times, the outer two of which have one high half
  have ht₂ : l₂.now < 2 ^ 53 := hle₂.trans_lt ht
  have hhigh := h₁.high_eq hx (hle₁.trans_lt ht₂)
  have hhigh' := h₃.high_eq hx₄ ht
  rw [BitVec.setWidth_eq] at hhigh hhigh'
  have hlow := h₂.low_eq hx₂ ht₂
  rw [BitVec.setWidth_eq] at hlow
  have hsame := TimerThread.high_eq_of_le hle₁ hle₂ (hhigh.symm.trans hhigh')
  exact RiscvTlm.word_eq (hhigh.trans hsame) hlow

theorem CounterLoop.time_le (h : CounterLoop k l value time l') (hx : l.cpu.host.Exact) :
    l'.cpu.host.Exact ∧ l.now ≤ time.toNat ∧ time.toNat ≤ l'.now := by
  induction h with
  | accept h => exact h.time_le hx
  | retry h _ hr _ ih =>
    obtain ⟨hx₁, hle, hle'⟩ := h.time_le hx
    obtain ⟨hx₂, hle₂⟩ := clock_of_run hx₁ hr
    obtain ⟨hx', hlo, hhi⟩ := ih hx₂
    exact ⟨hx', ((hle.trans hle').trans hle₂).trans hlo, hhi⟩

/-- The loop gives the time of its last low read. -/
theorem CounterLoop.value_eq (h : CounterLoop k l value time l') (hx : l.cpu.host.Exact)
    (ht : l'.now < 2 ^ 53) : value = time := by
  induction h with
  | accept h => exact h.word_eq hx ht
  | retry h _ hr _ ih => exact ih (clock_of_run (h.time_le hx).1 hr).1 ht

/-- Two halves that are read at one instant make that instant, in either order. -/
theorem word_eq_of_now {l₁ l₂ l₃ l₄ : CpuThread .RV32} (hh : Reads l₁ k.high high l₂)
    (hl : Reads l₃ k.low low l₄) (hx₁ : l₁.cpu.host.Exact) (hx₃ : l₃.cpu.host.Exact)
    (hnow : l₃.now = l₁.now) (ht : l₁.now < 2 ^ 53) :
    Timer.word high low = l₁.cpu.host.timeStamp := by
  have hhigh := hh.high_eq hx₁ ht
  have hlow := hl.low_eq hx₃ (hnow.trans_lt ht)
  rw [BitVec.setWidth_eq] at hhigh hlow
  rw [BitVec.eq_of_toNat_eq hnow] at hlow
  exact RiscvTlm.word_eq hhigh hlow

end Times

section CounterReads

variable {k k' : Counter} {l l' l₁ l₁' l₂ l₂' : CpuThread T} {v v₁ v₂ time t₁ t₂ : BitVec 64}
  {tr : List (Event T)}

theorem CounterRead.time_le (h : CounterRead k l v time l') (hx : l.cpu.host.Exact) :
    l'.cpu.host.Exact ∧ l.now ≤ time.toNat ∧ time.toNat ≤ l'.now := by
  cases h with
  | full h => exact ⟨h.exact hx, le_rfl, h.now_eq.symm.le⟩
  | highLow hh hr hnow hl =>
    obtain ⟨hx₂, -⟩ := clock_of_run (hh.exact hx) hr
    exact ⟨hl.exact hx₂, le_rfl, (hl.now_eq.trans hnow).symm.le⟩
  | lowHigh hl hr hnow hh =>
    obtain ⟨hx₂, -⟩ := clock_of_run (hl.exact hx) hr
    exact ⟨hh.exact hx₂, le_rfl, (hh.now_eq.trans hnow).symm.le⟩
  | loop h => exact h.time_le hx

/-- A read gives its time on RV32, and on RV64 if the time fits into the low half. -/
theorem CounterRead.value_eq_iff (h : CounterRead k l v time l') (hx : l.cpu.host.Exact)
    (ht : l'.now < 2 ^ 53) : v = time ↔ T = .RV32 ∨ time.toNat < 2 ^ 32 := by
  cases h with
  | @full l l' v h =>
    rw [h.now_eq] at ht
    have hn : v.toNat = l.cpu.host.timeStamp.toNat % 2 ^ 32 := by
      rw [h.low_eq hx ht, BitVec.toNat_setWidth, BitVec.toNat_setWidth]
      have hlt := Nat.mod_lt l.cpu.host.timeStamp.toNat (by decide : 2 ^ 32 > 0)
      exact Nat.mod_eq_of_lt (hlt.trans (by decide))
    rw [← BitVec.toNat_inj, hn]
    constructor
    · intro h
      exact .inr (h ▸ Nat.mod_lt _ (by decide))
    · rintro (h | h)
      · cases h
      · exact Nat.mod_eq_of_lt h
  | highLow hh hr hnow hl =>
    obtain ⟨hx₂, -⟩ := clock_of_run (hh.exact hx) hr
    rw [hl.now_eq, hnow] at ht
    exact iff_of_true (word_eq_of_now hh hl hx hx₂ hnow ht) (.inl rfl)
  | lowHigh hl hr hnow hh =>
    obtain ⟨hx₂, -⟩ := clock_of_run (hl.exact hx) hr
    rw [hh.now_eq] at ht
    have hw := word_eq_of_now hh hl hx₂ hx hnow.symm ht
    rw [BitVec.eq_of_toNat_eq hnow] at hw
    exact iff_of_true hw (.inl rfl)
  | loop h => exact iff_of_true (h.value_eq hx ht) (.inl rfl)

/-- Two reads in a run give their times, the second not smaller than the first, exactly on RV32 or
as long as the time of the second fits into 32 bits. -/
theorem counterReads_iff (hx : l₁.cpu.host.Exact) (h₁ : CounterRead k l₁ v₁ t₁ l₁')
    (hr : TimedRun l₁' tr l₂) (h₂ : CounterRead k' l₂ v₂ t₂ l₂') (ht : l₂'.now < 2 ^ 53) :
    (v₁ = t₁ ∧ v₂ = t₂ ∧ v₁.toNat ≤ v₂.toNat) ↔ T = .RV32 ∨ t₂.toNat < 2 ^ 32 := by
  obtain ⟨hx₁, -, hle₁⟩ := h₁.time_le hx
  obtain ⟨hx₂, hle⟩ := clock_of_run hx₁ hr
  obtain ⟨-, hle₂, hle₂'⟩ := h₂.time_le hx₂
  have hle₁₂ : t₁.toNat ≤ t₂.toNat := (hle₁.trans hle).trans hle₂
  have hv₁ := h₁.value_eq_iff hx (((hle.trans hle₂).trans hle₂').trans_lt ht)
  have hv₂ := h₂.value_eq_iff hx₂ ht
  constructor
  · rintro ⟨-, hv, -⟩
    exact hv₂.mp hv
  · intro h
    obtain rfl := hv₂.mpr h
    obtain rfl := hv₁.mpr (h.imp_right hle₁₂.trans_lt)
    exact ⟨rfl, rfl, hle₁₂⟩

/-- A CPU after a reset at a time, with an exact conversion. -/
def startAt (T : CpuType) (program : List (BitVec 32)) (time : BitVec 64) : CpuThread T :=
  ⟨.step, reset (Memory.load program) 0 ⟨time, id, fun _ => 0⟩⟩

/-- `csrr` of `cycleh` and `cycle`, and twice of `cycleh`, `cycle` and `cycleh`. -/
def readCycle : List (BitVec 32) :=
  [0xC80020F3, 0xC0002173, 0xC80021F3, 0xC0002273, 0xC80022F3, 0xC80021F3, 0xC0002273, 0xC80022F3]

/-- A pair at one instant, and a loop that is retried because the low word rolls over after its
first read. -/
theorem counterReads_rollover : ∃ l₁ l₂ l₃ tr v₁ v₂,
    CounterRead .cycle (startAt .RV32 readCycle 0xFFFFFFFF) v₁ 0xFFFFFFFF l₁ ∧
    TimedRun l₁ tr l₂ ∧ CounterRead .cycle l₂ v₂ 0x100000005 l₃ ∧
    (v₁ = 0xFFFFFFFF ∧ v₂ = 0x100000005 ∧ v₁.toNat ≤ v₂.toNat) := by
  obtain ⟨l₁, l₂, l₃, tr, v₁, v₂, h₁, hr, h₂, ht⟩ : ∃ l₁ l₂ l₃ tr v₁ v₂,
      CounterRead .cycle (startAt .RV32 readCycle 0xFFFFFFFF) v₁ 0xFFFFFFFF l₁ ∧
      TimedRun l₁ tr l₂ ∧ CounterRead .cycle l₂ v₂ 0x100000005 l₃ ∧ l₃.now < 2 ^ 53 := by
    refine ⟨_, _, _, [.cpuProcessIRQ false], Timer.word 0 0xFFFFFFFF, Timer.word 1 5,
      .highLow ⟨rfl, 1, by decide, by decide⟩
        (show TimedRun _ [.cpuProcessIRQ false] _ from .cons trivial rfl (.nil _)) rfl
        ⟨rfl, 2, by decide, by decide⟩,
      .cons trivial rfl (.nil _),
      .loop (.retry (show CounterPass .cycle _ 0 5 1 0x100000005 _ from
          ⟨_, _, _, _, [.cpuProcessIRQ false, .wait ⟨0x100000005, id, fun _ => 0⟩],
            [.cpuProcessIRQ false], ⟨rfl, 3, by decide, by decide⟩,
            .cons trivial rfl (.cons ⟨by decide, fun _ _ => rfl⟩ rfl (.nil _)),
            ⟨rfl, 4, by decide, by decide⟩, rfl, .cons trivial rfl (.nil _),
            ⟨rfl, 5, by decide, by decide⟩⟩)
        (by decide) (show TimedRun _ [.cpuProcessIRQ false] _ from .cons trivial rfl (.nil _))
        (.accept ⟨_, _, _, _, [.cpuProcessIRQ false], [.cpuProcessIRQ false],
          ⟨rfl, 3, by decide, by decide⟩, .cons trivial rfl (.nil _),
          ⟨rfl, 4, by decide, by decide⟩, rfl, .cons trivial rfl (.nil _),
          ⟨rfl, 5, by decide, by decide⟩⟩)), ?_⟩
    decide
  exact ⟨l₁, l₂, l₃, tr, v₁, v₂, h₁, hr, h₂,
    (counterReads_iff (fun _ _ => rfl) h₁ hr h₂ ht).mpr (.inl rfl)⟩

/-- Two reads of `cycle` on RV64, at `0xFFFFFFFF` and right after it: the second one is smaller. -/
theorem counterReads_backwards : ∃ l₁ l₂ l₃ tr v₁ v₂,
    (startAt .RV64 [0xC00020F3, 0xC0002173] 0xFFFFFFFF).cpu.host.Exact ∧
    CounterRead .cycle (startAt .RV64 [0xC00020F3, 0xC0002173] 0xFFFFFFFF) v₁ 0xFFFFFFFF l₁ ∧
    TimedRun l₁ tr l₂ ∧ CounterRead .cycle l₂ v₂ 0x100000000 l₃ ∧ l₃.now < 2 ^ 53 ∧
    v₂ ≠ 0x100000000 ∧ v₂.toNat < v₁.toNat := by
  refine ⟨_, _, _, [.cpuProcessIRQ false, .wait ⟨0x100000000, id, fun _ => 0⟩], 0xFFFFFFFF, 0,
    fun _ _ => rfl, .full ⟨rfl, 1, by decide, by decide⟩,
    .cons trivial rfl (.cons ⟨by decide, fun _ _ => rfl⟩ rfl (.nil _)),
    .full ⟨rfl, 2, by decide, by decide⟩, ?_, ?_, ?_⟩ <;> decide

end CounterReads

end RiscvTlm
