import RiscvTlm.Atomics
import RiscvTlm.ExpansionMemory
import RiscvTlm.Isa.Machine
import RiscvTlm.MulDiv
import RiscvTlm.Stops

/-!
# The thread refines the machine of the manual

Whole programs of RV32IMC and RV64IMC with fences and read-modify-writes: the thread of the CPU
makes the steps of the machine of the manual, one for one, as long as interrupts are disabled,
whatever notifications arrive and however the time passes. `Suits` collects what the code needs for
that.
-/

namespace RiscvTlm

open Isa ByteMemory Prog Transitions ExtensionBase

variable {T : CpuType} {s s₁ t : System T} {w : BitVec 32}

/-! ## The fetch -/

/-- The transaction of a fetch inside the memory brings the word at the PC. -/
theorem bTransport_fetch_inside (h : s.regs.registerPC.toNat + 4 ≤ Memory.SIZE) :
    ∃ r, BusCtrl.bTransport s.bus s.host (fetchTrans s) = .ok r ∧
      r.2.isResponseError = false ∧ r.2.data = read 32 s.mem s.regs.registerPC.toNat 4 := by
  have ha : s.regs.registerPC.toNat < Memory.SIZE := by omega
  have hsel : BusCtrl.bTransport s.bus s.host (fetchTrans s) = _ :=
    BusCtrl.bTransport_select ((fetchTrans_toNat s).trans_lt ha)
  rw [bTransport_fetchTrans ha, if_pos h] at hsel
  exact ⟨_, hsel, rfl, copyBytes_eq_read _ _ _⟩

/-- Inside the memory a fetch obtains the word at the PC, over either path. -/
theorem fetch_inside (h : s.regs.registerPC.toNat + 4 ≤ Memory.SIZE) :
    ∃ s₁, fetch.run s = .ok (read 32 s.mem s.regs.registerPC.toNat 4) s₁ := by
  rw [fetch, run_get_bind]
  cases hv : s.dmiPtrValid with
  | true =>
    rw [if_pos rfl]
    have hd := run_fetchDmi s
    rw [if_pos h] at hd
    rw [run_bind_ok hd, ← copyBytes_eq_read s.INSTR s.mem]
    exact ⟨_, rfl⟩
  | false =>
    obtain ⟨r, hr, he, hdata⟩ := bTransport_fetch_inside h
    have hb := run_fetchBus_of_ok hr
    rw [he, if_neg Bool.false_ne_true] at hb
    rw [if_neg Bool.false_ne_true, run_bind_ok hb, run_get_bind, ← hdata]
    split <;> exact ⟨_, rfl⟩

/-! ## Instructions -/

/-- Executing the word of `i` in `s` is the step of the machine, and keeps the CSRs. -/
def Executes (s : System T) (i : Instr) : Prop :=
  ∃ t, (execDecoded (encode i) (instrCode i)).run s = .ok false t ∧
    exec (archState s) i = some (archState t) ∧ t.regs.csr = s.regs.csr

section Instructions

variable (s) (rd rs1 rs2 : Reg)

theorem executes_mul (op : MulOp)
    (h : T = .RV32 ∨ ¬((op = .div ∨ op = .rem) ∧ Overflows (registers s rs1) (registers s rs2))) :
    Executes s (.mul op rd rs1 rs2) := by
  have ho : Operands T (encode (.mul op rd rs1 rs2)) (.mul op rd rs1 rs2) := operands_encode trivial
  have hm : MExtension.MulDone (encode (.mul op rd rs1 rs2)) op s := by
    refine MExtension.mulDone_of ?_
    rw [ho.2.1, ho.2.2]
    exact h
  rw [MExtension.MulDone, ho.1, ho.2.1, ho.2.2] at hm
  refine ⟨_, run_execDecoded_m hm, ?_, Registers.setValue_csr _ _ _⟩
  rw [if_pos rfl, archState_incPC, archState_setReg]
  rfl

theorem executes_mulW (op : MulOpW) (hd : (Instr.mulW op rd rs1 rs2).Defined T.xlen)
    (h : ¬((op = .divw ∨ op = .divuw) ∧
      MExtension.LeastByAllOnes ((archState s).word rs1) ((archState s).word rs2))) :
    Executes s (.mulW op rd rs1 rs2) := by
  obtain rfl := xlen_eq_64.mp hd
  have ho : Operands .RV64 (encode (.mulW op rd rs1 rs2)) (.mulW op rd rs1 rs2) :=
    operands_encode hd
  have hword : ¬((op = .divw ∨ op = .divuw) ∧ MExtension.LeastByAllOnes
      (MExtension.lowWord (s.regs.getValue (getRs1 (encode (.mulW op rd rs1 rs2)))))
      (MExtension.lowWord (s.regs.getValue (getRs2 (encode (.mulW op rd rs1 rs2)))))) := by
    rw [ho.2.1, ho.2.2, MExtension.lowWord_eq, MExtension.lowWord_eq]
    exact h
  have hx := MExtension.run_wordOp hword
  rw [ho.1, ho.2.1, ho.2.2, MExtension.lowWord_eq, MExtension.lowWord_eq] at hx
  refine ⟨_, run_execDecoded_m hx, ?_, Registers.setValue_csr _ _ _⟩
  rw [if_pos rfl, archState_incPC, archState_setReg]
  rfl

open AExtension in
/-- `AMOSWAP` writes `rs2` too, which goes unnoticed when that is `x0`. -/
theorem run_amoCode (op : AmoOp) (hm : (addr w s).toNat + 4 ≤ Memory.SIZE)
    (hs : op = .swap → getRs2 w = 0) :
    (execInstruction w (amoCode op)).run s = .ok true (amoState (fun a b => op.eval a b) w s) := by
  have hslt (a b : BitVec 32) :
      (if a.slt b then a else b) = if a.toInt < b.toInt then a else b := by
    simp only [BitVec.slt_iff_toInt_lt]
  have hsgt (a b : BitVec 32) :
      (if b.slt a then a else b) = if b.toInt < a.toInt then a else b := by
    simp only [BitVec.slt_iff_toInt_lt]
  have hult (a b : BitVec 32) :
      (if a.ult b then a else b) = if a.toNat < b.toNat then a else b := by
    simp only [BitVec.ult_iff_lt, BitVec.lt_def]
  have hugt (a b : BitVec 32) :
      (if b.ult a then a else b) = if b.toNat < a.toNat then a else b := by
    simp only [BitVec.ult_iff_lt, BitVec.lt_def]
  cases op with
  | swap =>
    refine (run_bind_ok (run_execAMOSWAP hm)).trans ?_
    rw [swapState, hs rfl, setReg_zero]
    rfl
  | add => exact run_bind_ok (run_execAmo hm _)
  | xor => exact run_bind_ok (run_execAmo hm _)
  | and => exact run_bind_ok (run_execAmo hm _)
  | or => exact run_bind_ok (run_execAmo hm _)
  | min =>
    refine (run_bind_ok (run_execAmo hm _)).trans ?_
    simp only [hslt]
    rfl
  | max =>
    refine (run_bind_ok (run_execAmo hm _)).trans ?_
    simp only [hsgt]
    rfl
  | minu =>
    refine (run_bind_ok (run_execAmo hm _)).trans ?_
    simp only [hult]
    rfl
  | maxu =>
    refine (run_bind_ok (run_execAmo hm _)).trans ?_
    simp only [hugt]
    rfl

open AExtension in
/-- The operand is read after `rd` is written. -/
theorem executes_amoW (op : AmoOp) (aqrl : BitVec 2) (hal : (registers s rs1).toNat % 4 = 0)
    (hm : (registers s rs1).toNat + 4 ≤ Memory.SIZE) (hr : rd = rs2 → rd = 0)
    (hs : op = .swap → rs2 = 0) : Executes s (.amoW op aqrl rd rs1 rs2) := by
  obtain ⟨hrd, hrs1, hrs2⟩ : Operands T _ (.amoW op aqrl rd rs1 rs2) := operands_encode trivial
  have haddr : addr (encode (.amoW op aqrl rd rs1 rs2)) s = registers s rs1 :=
    congrArg s.regs.getValue hrs1
  have hold : oldWord (encode (.amoW op aqrl rd rs1 rs2)) s = (archState s).wordAt rs1 := by
    rw [oldWord, haddr]
    rfl
  have hlate : lateOperand (encode (.amoW op aqrl rd rs1 rs2)) s = (archState s).word rs2 := by
    have hn : ¬(rd.toNat = rs2.toNat ∧ rd.toNat ≠ 0) := by
      rintro ⟨he, h0⟩
      rw [hr (BitVec.eq_of_toNat_eq he)] at h0
      exact h0 rfl
    rw [lateOperand, hrd, hrs2, if_neg hn, operand, hrs2]
    rfl
  have hx := run_amoCode (s := s) op (haddr ▸ hm) fun h => hrs2.trans (by rw [hs h]; rfl)
  refine ⟨_, run_execDecoded_a hx, ?_, Registers.setValue_csr _ _ _⟩
  rw [if_pos rfl, archState_incPC, amoState, hold, hlate, haddr, hrd]
  have hset (mem : Mem) : archState ((s.setReg rd.toNat
      (((archState s).wordAt rs1).signExtend T.xlen)).setMem mem) =
        ((archState s).setWord rd ((archState s).wordAt rs1)).setMem mem :=
    congrArg (State.setMem · mem) (archState_setReg s rd _)
  rw [hset]
  exact if_pos hal

/-- `FENCE` reads the word behind it. -/
theorem executes_fence (fm pred succ : BitVec 4)
    (hm : s.regs.registerPC.toNat + 8 ≤ Memory.SIZE) : Executes s (.fence fm pred succ) := by
  have ha : (((s.regs.registerPC.setWidth 32 + 4 : BitVec 32)).setWidth 64).toNat + 4 ≤
      Memory.SIZE := by
    rw [BitVec.toNat_setWidth_of_le (by decide), BitVec.toNat_add, BitVec.toNat_setWidth]
    unfold Memory.SIZE at hm ⊢
    have h4 : (4 : BitVec 32).toNat = 4 := rfl
    omega
  have hread := run_readWord s ha
  have hx : ∃ u, (BaseIsa.execFENCE).run s = .ok true u ∧ archState u = archState s ∧
      u.regs = s.regs := by
    rw [BaseIsa.execFENCE, run_bind_ok (run_getPC s), run_bind_ok hread]
    split <;> exact ⟨_, rfl, rfl, rfl⟩
  obtain ⟨u, hu, hau, hregs⟩ := hx
  have hcsr : u.regs.csr = s.regs.csr := congrArg Registers.csr hregs
  refine ⟨_, run_next rfl hu, ?_, hcsr⟩
  rw [archState_incPC, hau]
  rfl

end Instructions

/-! ## Compressed instructions -/

section Shortened

variable {n : ℕ} {a u v : Isa.State n} {c : CInstr}

theorem Shortens.eq_of_next (h : Shortens c a u v) (hl : linkReg c = none)
    (hf : fallsThrough a c = true) : u = v.setPC (a.pc + 2) :=
  State.ext (funext fun r => h.x r (by rw [hl]; exact (Option.some_ne_none r).symm))
    (h.next hf).1 h.mem

theorem Shortens.eq_of_target (h : Shortens c a u v) (hl : linkReg c = none)
    (hf : fallsThrough a c = false) : u = v :=
  State.ext (funext fun r => h.x r (by rw [hl]; exact (Option.some_ne_none r).symm))
    (h.target hf) h.mem

theorem Shortens.eq_of_link (h : Shortens c a u v) (hl : linkReg c = some 1)
    (hf : fallsThrough a c = false) : u = v.set 1 (a.pc + 2) := by
  refine State.ext (funext fun r => ?_) ?_ ?_
  · rw [State.set_x]
    by_cases hr : r = 1
    · rw [if_pos ⟨hr, by decide⟩, hr]
      exact (h.link 1 hl).1
    · rw [if_neg fun hc => hr hc.1]
      exact h.x r (by rw [hl]; exact fun he => hr (Option.some_inj.mp he).symm)
  · rw [State.set_pc]
    exact h.target hf
  · rw [State.set_mem]
    exact h.mem

/-- A branch that is not taken. -/
theorem Shortens.eq_of_not_taken {op : BranchOp} {rs1 : RegC} {offset : BitVec 12}
    (h : Shortens c a u v) (hl : linkReg c = none) (hf : fallsThrough a c = true)
    (he : c.expand = .branch op rs1.reg 0 offset) (hv : exec a c.expand = some v)
    (ht : op.taken (a.x rs1.reg) (a.x 0) = false) : u = a.setPC (a.pc + 2) := by
  have hn : exec a (.branch op rs1.reg 0 offset) =
      some (if op.taken (a.x rs1.reg) (a.x 0) then a.setPC (a.pc + branchOffset n offset)
        else a.next) := rfl
  rw [he, hn, ht, if_neg Bool.false_ne_true] at hv
  rw [h.eq_of_next hl hf, ← Option.some_inj.mp hv]
  rfl

/-- What `Shortens` describes is the step of the compressed instruction. -/
theorem Shortens.exec_eq (h : Shortens c a u v) (hv : exec a c.expand = some v)
    (hc : c ≠ .ebreak) : c.exec a = some u := by
  cases c with
  | ebreak => exact absurd rfl hc
  | j offset => rw [h.eq_of_target rfl rfl, CInstr.exec, hv]
  | jr rs1 => rw [h.eq_of_target rfl rfl, CInstr.exec, hv]
  | jal offset => rw [h.eq_of_link rfl rfl, CInstr.exec, hv, Option.map_some]
  | jalr rs1 => rw [h.eq_of_link rfl rfl, CInstr.exec, hv, Option.map_some]
  | beqz rs1 offset =>
    by_cases h0 : a.x rs1.reg = 0
    · have hf : fallsThrough a (.beqz rs1 offset) = false := decide_eq_false (not_not.mpr h0)
      rw [h.eq_of_target rfl hf, CInstr.exec, if_pos h0, hv]
    · have ht : BranchOp.taken (a.x rs1.reg) (a.x 0) .beq = false := by
        rw [a.zero]
        exact decide_eq_false h0
      rw [h.eq_of_not_taken rfl (decide_eq_true h0) rfl hv ht, CInstr.exec, if_neg h0]
  | bnez rs1 offset =>
    by_cases h0 : a.x rs1.reg = 0
    · have ht : BranchOp.taken (a.x rs1.reg) (a.x 0) .bne = false := by
        rw [a.zero]
        exact decide_eq_false (not_not.mpr h0)
      rw [h.eq_of_not_taken rfl (decide_eq_true h0) rfl hv ht, CInstr.exec,
        if_neg (not_not.mpr h0)]
    · rw [h.eq_of_target rfl (decide_eq_false h0), CInstr.exec, if_pos h0, hv]
  | _ =>
    have hu := h.eq_of_next rfl rfl
    exact (congrArg (Option.map fun t => t.setPC (a.pc + 2)) hv).trans (congrArg some hu.symm)

end Shortened

/-! ## A step -/

/-- What the code needs to execute an instruction as the manual says: with 64-bit registers no
division that overflows, the amounts and targets of compressed instructions within a word, no
special case of `DIVW` and `DIVUW`, no read-modify-write whose operand is overwritten, and a word to
look at behind a fence. -/
def Suits (a : Isa.State T.xlen) : Fetched → Prop
  | .full (.mul op _ rs1 rs2) =>
    T = .RV32 ∨ ¬((op = .div ∨ op = .rem) ∧ Overflows (a.x rs1) (a.x rs2))
  | .full (.mulW op _ rs1 rs2) =>
    ¬((op = .divw ∨ op = .divuw) ∧ MExtension.LeastByAllOnes (a.word rs1) (a.word rs2))
  | .full (.amoW op _ rd _ rs2) => (rd = rs2 → rd = 0) ∧ (op = .swap → rs2 = 0)
  | .full (.fence ..) => a.pc.toNat + 8 ≤ Memory.SIZE
  | .full _ => True
  | .compressed c => FitsWord a c

instance FitsWord.decidable {n : ℕ} (a : Isa.State n) : (c : CInstr) → Decidable (FitsWord a c)
  | .j _ | .jr _ | .srli .. | .srai .. | .slli .. => Nat.decLt _ _
  | .jal _ | .jalr _ => inferInstanceAs (Decidable (_ ∧ _))
  | .sw .. | .swsp .. => inferInstanceAs (Decidable (_ ∨ _))
  | .addi4spn .. | .lw .. | .ld .. | .sd .. | .addi .. | .addiw .. | .li .. | .addi16sp _ | .lui ..
  | .andi .. | .sub .. | .xor .. | .or .. | .and .. | .subw .. | .addw .. | .beqz .. | .bnez ..
  | .lwsp .. | .ldsp .. | .mv .. | .ebreak | .add .. | .sdsp .. => instDecidableTrue

instance Suits.decidable (a : Isa.State T.xlen) (f : Fetched) : Decidable (Suits a f) := by
  unfold Suits MExtension.LeastByAllOnes
  split <;> infer_instance

theorem executes_of_suits {i : Instr} (hd : i.Defined T.xlen) (hs : Suits (archState s) (.full i))
    (hm : ∀ a k, dataAccess (registers s) i = some (a, k) → a.toNat + k ≤ Memory.SIZE)
    {u : Isa.State T.xlen} (hu : exec (archState s) i = some u) : Executes s i := by
  cases i with
  | mul op rd rs1 rs2 => exact executes_mul s rd rs1 rs2 op hs
  | mulW op rd rs1 rs2 => exact executes_mulW s rd rs1 rs2 op hd hs
  | amoW op aqrl rd rs1 rs2 =>
    have hal : (registers s rs1).toNat % 4 = 0 := by
      by_contra hne
      rw [exec, archState_x, if_neg hne] at hu
      cases hu
    exact executes_amoW s rd rs1 rs2 op aqrl hal (hm _ _ rfl) hs.1 hs.2
  | fence fm pred succ => exact executes_fence s fm pred succ hs
  | lrW | scW | csr | csrImm | fenceI | ecall | ebreak | mret | sret | wfi | sfenceVma => cases hu
  | _ => exact conforms_of_isBase hd rfl hm

/-- A compressed instruction other than `C.EBREAK` returns without the breakpoint flag. -/
theorem flag_compressed {c : CInstr} {b : Bool} (hd : c.Defined T.xlen)
    (hw : w.setWidth 16 = c.encode) (hne : c ≠ .ebreak)
    (h : (execDecoded w (decodeCascade T w)).run s = .ok b t) : b = false := by
  have hflag {x : Sim T Bool} (f : Bool → Bool) {r : Bool × Bool} {s' : System T}
      (hx : (x >>= fun a => pure (f a, false) : Sim T (Bool × Bool)).run s = .ok r s') :
      r.2 = false := by
    obtain ⟨a, u, -, hr⟩ := bind_eq_ok hx
    cases hr
    rfl
  rw [decodeCascade_compressed hd hw] at h
  obtain ⟨⟨affected, flag⟩, s', hr, h⟩ := bind_eq_ok h
  obtain rfl : flag = false := by
    cases c <;> first
      | exact hflag (fun _ => true) hr
      | exact hflag (fun _ => false) hr
      | exact hflag id hr
      | exact absurd rfl hne
  cases affected <;> cases h <;> rfl

/-- A step of the code that the manual describes. -/
structure StepsTo (s : System T) (u : Isa.State T.xlen) (t : System T) : Prop where
  run : cpuStep.run s = .ok false t
  arch : archState t = u
  csr : t.regs.csr = s.regs.csr

theorem stepsTo_full {i : Instr} {u : Isa.State T.xlen} (hat : (Fetched.full i).At (archState s))
    (hu : exec (archState s) i = some u)
    (hw : Machine.Within Memory.SIZE (archState s) (.full i))
    (hs : Suits (archState s) (.full i)) : ∃ t, StepsTo s u t := by
  obtain ⟨s₁, hf⟩ := fetch_inside hw.fetch
  have hword : fetch.run s = .ok (encode i) s₁ := hat.2 ▸ hf
  have harch := archState_fetch hword
  have hregs : registers s₁ = registers s := congrArg State.x harch
  obtain ⟨t, ht, he, hcsr⟩ := executes_of_suits (s := s₁) hat.1 (harch.symm ▸ hs)
    (hregs.symm ▸ hw.data) (harch.symm ▸ hu)
  refine ⟨t, ?_, ?_, hcsr.trans (congrArg Registers.csr (fetch_frame hword).1)⟩
  · rw [run_cpuStep hword, decodeCascade_encode]
    exact ht
  · rw [harch, hu] at he
    exact (Option.some_inj.mp he).symm

theorem stepsTo_compressed {c : CInstr} {u : Isa.State T.xlen}
    (hat : (Fetched.compressed c).At (archState s)) (hu : c.exec (archState s) = some u)
    (hw : Machine.Within Memory.SIZE (archState s) (.compressed c))
    (hs : Suits (archState s) (.compressed c)) : ∃ t, StepsTo s u t := by
  obtain ⟨s₁, hf⟩ := fetch_inside hw.fetch
  have hhalf : (read 32 s.mem s.regs.registerPC.toNat 4).setWidth 16 = c.encode :=
    (Bytes.setWidth_ofBytes (l := 2) _ rfl (by decide) (by decide)).trans hat.2
  have hne : c ≠ .ebreak := by
    rintro rfl
    cases hu
  have hb := CInstr.isBase_expand hne
  have harch := archState_fetch hf
  have hregs : registers s₁ = registers s := congrArg State.x harch
  -- the expansion, executed by the base set from the same state
  have hacc (a : BitVec T.xlen) (k : ℕ) (h : access (registers s₁) c.expand = some (a, k)) :
      a.toNat + k ≤ Memory.SIZE := by
    refine hw.data a k ?_
    rw [hregs] at h
    rw [← h]
    cases c <;> rfl
  obtain ⟨v, hv, hstep, hcsr⟩ := conforms_of_isBase (CInstr.expand_defined hat.1) hb hacc
  have hexp : runExpansion c s₁ = .ok false v := by
    rw [runExpansion, decodeCascade_encode]
    exact hv
  have hagree := (agree_cpuStep_iff hf hat.1 hhalf).mpr hs
  rw [hexp] at hagree
  cases hx : cpuStep.run s with
  | error e t =>
    rw [hx] at hagree
    exact hagree.elim
  | ok b t =>
    rw [hx] at hagree
    obtain ⟨hshort, hcsr'⟩ := hagree
    have hc : c.exec (archState s) = some (archState t) := by
      refine hshort.exec_eq ?_ hne
      rw [exec_of_isBase hb, ← harch]
      exact hstep
    obtain rfl := flag_compressed hat.1 hhalf hne ((run_cpuStep hf).symm.trans hx)
    refine ⟨t, hx, Option.some_inj.mp (hc.symm.trans hu), ?_⟩
    rw [hcsr', hcsr, (fetch_frame hf).1]

/-- Every step of the machine inside the memory that suits the code is one of the code. -/
theorem stepsTo_of_next {f : Fetched} {u : Isa.State T.xlen}
    (hu : Machine.next (archState s) f = some u)
    (hw : Machine.Within Memory.SIZE (archState s) f) (hs : Suits (archState s) f) :
    ∃ t, StepsTo s u t := by
  obtain ⟨hat, he⟩ := Machine.next_eq_some.mp hu
  cases f with
  | full i => exact stepsTo_full hat he hw hs
  | compressed c => exact stepsTo_compressed hat he hw hs

/-! ## Runs -/

/-- The steps of the machine that the code can follow. -/
structure Supported (a : Isa.State T.xlen) (f : Fetched) : Prop where
  within : Machine.Within Memory.SIZE a f
  suits : Suits a f

instance Supported.decidable (a : Isa.State T.xlen) (f : Fetched) : Decidable (Supported a f) :=
  decidable_of_iff (Machine.Within Memory.SIZE a f ∧ Suits a f)
    ⟨fun h => ⟨h.1, h.2⟩, fun h => ⟨h.within, h.suits⟩⟩

/-- A call of `CPU_step`. -/
def Event.isStep : Event T → Bool
  | .cpuStep => true
  | _ => false

/-- The thread is in the state `a` of the machine, with interrupts disabled. -/
structure Tracks (a : Isa.State T.xlen) (l : CpuThread T) : Prop where
  arch : archState l.cpu = a
  mie : l.cpu.mie = false

theorem archState_irqDown (s : System T) : archState (irqDown s) = archState s := by
  unfold irqDown
  split <;> rfl

theorem mie_irqDown (s : System T) : (irqDown s).mie = s.mie := by
  rw [System.mie, System.mie, irqDown_csr (by decide)]

/-- The thread simulates the machine, whatever notifications it gets. -/
theorem simulates_machine :
    Simulates (CpuThread.next (T := T)) Event.isStep Machine.next Supported Tracks where
  step := by
    intro a u l l' e f hl hf hu he hn
    cases step_of_next hn with
    | @cpuStep s t b hs =>
      obtain ⟨harch, hmie⟩ := hl
      obtain ⟨t', ht', hat, hcsr⟩ :=
        stepsTo_of_next (s := s) (harch.symm ▸ hu) (harch.symm ▸ hf.within) (harch.symm ▸ hf.suits)
      cases hs.symm.trans ht'
      refine ⟨hat, ?_⟩
      rw [System.mie, hcsr]
      exact hmie
    | taken | delayed | down | callInterrupt | wait => cases he
  silent := by
    intro a l l' e hl he hn
    cases step_of_next hn with
    | cpuStep => cases he
    | taken hi hm hp => exact absurd (hm.symm.trans hl.mie) (by decide)
    | delayed => exact ⟨hl.arch, hl.mie⟩
    | @down s => exact ⟨(archState_irqDown s).trans hl.arch, (mie_irqDown s).trans hl.mie⟩
    | callInterrupt => exact ⟨hl.arch, hl.mie⟩
    | wait => exact ⟨hl.arch, hl.mie⟩

/-- With interrupts disabled, the thread makes the steps of the machine one for one: in whatever
order it steps, gets notifications and waits, after `n` steps it is in the state that the machine
reaches in `n` steps. -/
theorem thread_refines {a u : Isa.State T.xlen} {fs : List Fetched} {l l' : CpuThread T}
    {tr : List (Event T)} (ha : Run Machine.next Supported a fs u) (hl : archState l.cpu = a)
    (hm : l.cpu.mie = false) (hr : Run CpuThread.next (fun _ _ => True) l tr l')
    (hlen : tr.countP Event.isStep ≤ fs.length) :
    ∃ v, Run Machine.next Supported a (fs.take (tr.countP Event.isStep)) v ∧
      archState l'.cpu = v := by
  obtain ⟨v, hv, hl'⟩ := simulates_machine.run hr ha ⟨hl, hm⟩ hlen
  exact ⟨v, hv, hl'.arch⟩

/-- `addi x5, x0, 6`, `mul x6, x5, x5`, `c.addi x6, 1` and `c.mv x7, x6`, with a notification behind
the first step. -/
theorem thread_refines_square :
    let s := start .RV32 [0x00600293, 0x02528333, 0x839A0305]
    ∃ l u, Run CpuThread.next (fun _ _ => True) ⟨.step, s⟩
        [.cpuStep, .cpuProcessIRQ false, .callInterrupt 1, .cpuStep, .cpuProcessIRQ false, .cpuStep,
          .cpuProcessIRQ false, .wait s.host, .cpuStep] l ∧
      Run Machine.next Supported (archState s) [.full (.opImm .addi 5 0 6), .full (.mul .mul 6 5 5),
        .compressed (.addi 6 1), .compressed (.mv 7 6)] u ∧
      u.x 7 = 37 ∧ archState l.cpu = u := by
  intro s
  have hl : (execute CpuThread.next (fun _ _ => True) ⟨.step, s⟩
      [.cpuStep, .cpuProcessIRQ false, .callInterrupt 1, .cpuStep, .cpuProcessIRQ false, .cpuStep,
        .cpuProcessIRQ false, .wait s.host, .cpuStep]).any (fun _ => true) = true := by decide
  have hu : (execute Machine.next Supported (archState s) [.full (.opImm .addi 5 0 6),
      .full (.mul .mul 6 5 5), .compressed (.addi 6 1), .compressed (.mv 7 6)]).any
      (fun u => u.x 7 = 37) = true := by decide
  obtain ⟨l, hl, -⟩ := exists_run_of_execute hl
  obtain ⟨u, hu, h7⟩ := exists_run_of_execute hu
  obtain ⟨v, hv, hlv⟩ := thread_refines hu rfl (by decide) hl (by decide)
  obtain rfl := hu.unique hv
  exact ⟨l, u, hl, hu, of_decide_eq_true h7, hlv⟩

end RiscvTlm
