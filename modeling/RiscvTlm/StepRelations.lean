import RiscvTlm.Effects

/-!
# Relations that a step respects

An instruction computes from the registers, the bus, the reservations and the host, and changes
nothing else but the exception log. `StateRelation` is a relation of states with what it needs for
every instruction to respect it; the programs that respect it are a class, so that
`respects_execDecoded` holds. The relation may also demand an even PC: then the words that load the
PC from a CSR are left out.
-/

namespace RiscvTlm

open Prog AExtension

variable {T : CpuType}

/-- A relation that compares the registers, the bus, the reservations and the host, admits only
allowed PCs, and holds after every change of these parts that keeps the PC allowed and the memory's
offer of direct access. -/
structure StateRelation (T : CpuType) where
  rel : System T → System T → Prop
  anyPC : Prop
  regs {s t : System T} : rel s t → s.regs = t.regs
  bus {s t : System T} : rel s t → s.bus = t.bus
  tlb {s t : System T} : rel s t → s.tlbAEntries = t.tlbAEntries
  host {s t : System T} : rel s t → s.host = t.host
  pc {s t : System T} : rel s t → Allowed anyPC s.regs.registerPC
  setRegs {s t : System T} : rel s t → ∀ regs, Allowed anyPC regs.registerPC →
    rel { s with regs := regs } { t with regs := regs }
  setBus {s t : System T} : rel s t →
    ∀ bus, bus.memory.dmiAllowed = s.bus.memory.dmiAllowed →
      rel { s with bus := bus } { t with bus := bus }
  setTlb {s t : System T} : rel s t → ∀ tlb,
    rel { s with tlbAEntries := tlb } { t with tlbAEntries := tlb }
  log {s t : System T} : rel s t → ∀ cause,
    rel { s with exceptionLog := cause :: s.exceptionLog }
      { t with exceptionLog := cause :: t.exceptionLog }

/-! ## The building blocks -/

section Blocks

variable (R : StateRelation T)

theorem respects_getValue (n : ℕ) : Respects R.rel (getValue n) := by
  intro s t h
  show Related R.rel (.ok (s.regs.getValue n) s) (.ok (t.regs.getValue n) t)
  rw [R.regs h]
  exact .ok _ h

theorem respects_getCSR (c : ℕ) : Respects R.rel (getCSR c) := by
  intro s t h
  show Related R.rel (.ok (s.regs.getCSR s.host c) s) (.ok (t.regs.getCSR t.host c) t)
  rw [R.regs h, R.host h]
  exact .ok _ h

/-- The PC read is an allowed one. -/
theorem respects_getPC_bind {α : Type} {k : BitVec T.xlen → Sim T α}
    (hk : ∀ pc, Allowed R.anyPC pc → Respects R.rel (k pc)) : Respects R.rel (getPC >>= k) := by
  intro s t h
  show Related R.rel ((k s.regs.registerPC).run s) ((k t.regs.registerPC).run t)
  rw [← R.regs h]
  exact hk _ (R.pc h) s t h

/-- An update of the registers that keeps the PC allowed. -/
theorem respects_modifyRegs {f : Registers T → Registers T}
    (hf : ∀ regs, Allowed R.anyPC regs.registerPC → Allowed R.anyPC (f regs).registerPC) :
    Respects R.rel (modify fun s => { s with regs := f s.regs } : Sim T Unit) := by
  refine .modify fun s t h => ?_
  rw [← R.regs h]
  exact R.setRegs h _ (hf _ (R.pc h))

theorem respects_setValue (n : ℕ) (v : BitVec T.xlen) : Respects R.rel (setValue n v) :=
  respects_modifyRegs R (f := fun regs => regs.setValue n v) fun regs h => by
    rw [Registers.setValue_registerPC]
    exact h

theorem respects_setCSR (c : ℕ) (v : BitVec T.xlen) : Respects R.rel (setCSR c v) :=
  respects_modifyRegs R (f := fun regs => regs.setCSR c v) fun regs h => by
    rw [Registers.setCSR_registerPC]
    exact h

theorem respects_setPC {pc : BitVec T.xlen} (h : Allowed R.anyPC pc) : Respects R.rel (setPC pc) :=
  respects_modifyRegs R (f := fun regs => regs.setPC pc) fun _ _ => h

theorem respects_scStop : Respects R.rel scStop := by
  refine .modify fun s t h => ?_
  rw [← R.bus h]
  exact R.setBus h _ rfl

theorem respects_bTransport (trans : Payload) : Respects R.rel (bTransport trans) := by
  refine .get_bind fun s t h => ?_
  have ht : BusCtrl.bTransport t.bus t.host trans = BusCtrl.bTransport s.bus s.host trans := by
    rw [R.bus h, R.host h]
  rw [ht]
  cases hb : BusCtrl.bTransport s.bus s.host trans with
  | ok r => exact .ok _ (R.setBus h _ (BusCtrl.bTransport_dmiAllowed hb))
  | error e => exact .error e h

theorem respects_readDataMem (addr : BitVec 64) (size : ℕ) :
    Respects R.rel (readDataMem addr size) := by
  refine .get_bind fun s t h => ?_
  rw [← R.host h]
  refine Respects.bind (respects_bTransport R _) (fun trans => ?_) s t h
  exact .ite (fun _ => .bind (.throw _) fun _ => .pure _) fun _ => .pure _

theorem respects_writeDataMem (addr : BitVec 64) (data : BitVec 32) (size : ℕ) :
    Respects R.rel (writeDataMem addr data size) := by
  refine .bind (respects_bTransport R _) fun trans => ?_
  exact .ite (fun _ => .throw _) fun _ => .pure _

theorem respects_tlbReserve (a : BitVec 32) : Respects R.rel (tlbReserve (T := T) a) := by
  refine .modify fun s t h => ?_
  rw [← R.tlb h]
  exact R.setTlb h _

theorem respects_tlbReserved (a : BitVec 32) : Respects R.rel (tlbReserved (T := T) a) := by
  refine .get_bind fun s t h => ?_
  rw [← R.tlb h]
  split
  · exact .ok _ (R.setTlb h _)
  · exact .ok _ h

/-- The programs that respect the relation, with any register, CSR, store and reservation. -/
def StateRelation.respecting : ProgramClass T where
  holds x := Respects R.rel x
  anyPC := R.anyPC
  value _ := True
  csr _ := True
  write := True
  tlb := True
  stop := True
  value_zero := trivial
  pure := .pure
  throw := .throw
  bind := .bind
  getValue := respects_getValue R
  getCSR := respects_getCSR R
  getPC_bind := respects_getPC_bind R
  setValue v _ := respects_setValue R _ v
  setCSR v _ := respects_setCSR R _ v
  setPC := respects_setPC R
  readDataMem := respects_readDataMem R
  writeDataMem addr data size _ := respects_writeDataMem R addr data size
  tlbReserve a _ := respects_tlbReserve R a
  tlbReserved a _ := respects_tlbReserved R a
  scStop _ := respects_scStop R

end Blocks

/-- A relation that admits any PC is respected by an exception. -/
theorem respects_raiseException (R : StateRelation T) (hpc : R.anyPC) (cause : ExceptionCause)
    (inst : BitVec 32) : Respects R.rel (raiseException cause inst) :=
  holds_raiseException R.respecting inst hpc (fun _ => trivial) (fun _ => trivial)
    (.modify fun _ _ h => R.log h cause)

/-- Every decoded word respects the relation, if the relation admits any PC or the word stays clear
of the CSRs that hold one. -/
theorem respects_execDecoded (R : StateRelation T) {w : BitVec 32} {d : Decoded}
    (h : R.anyPC ∨ Staying T w d) : Respects R.rel (execDecoded w d) := by
  refine R.respecting.execDecoded w ⟨fun _ _ => trivial, fun _ _ => trivial, fun _ => trivial,
    fun _ => trivial, fun _ => trivial, fun cause hc => ?_, h.imp id And.right⟩
  have hpc : R.anyPC := h.resolve_right fun hs => Option.some_ne_none _ (hc.symm.trans hs.1)
  exact respects_raiseException R hpc cause w

end RiscvTlm
