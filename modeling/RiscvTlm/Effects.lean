import RiscvTlm.ProgramClasses

/-!
# What an instruction leaves unchanged

Frame conditions of the instructions. An observation of the state is kept by an instruction unless
it looks at what the instruction may change: the registers it writes (`written`), the memory if it
stores (`storing`), the reservations if it is `LR` or `SC`, the CSR it addresses (`csrAddressed`)
and the exception it raises (`raiseOf`). The programs that keep it are a class, and
`keeps_execDecoded_of` is the frame condition of the whole switch.
-/

namespace RiscvTlm

open Prog

variable {T : CpuType} {β : Type*}

/-! ## What an observation looks at -/

/-- The observation `f` does not depend on what an instruction outside the CSRs changes. -/
structure Ignores (f : System T → β) : Prop where
  setValue : ∀ s n v, f { s with regs := s.regs.setValue n v } = f s
  setPC : ∀ s v, f { s with regs := s.regs.setPC v } = f s
  bus : ∀ s b, f { s with bus := b } = f s
  tlb : ∀ s t, f { s with tlbAEntries := t } = f s

/-- The observation `f` does not depend on the PC and on the bus outside the memory, which every
instruction may change. -/
structure IgnoresStep (f : System T → β) : Prop where
  setPC : ∀ s v, f { s with regs := s.regs.setPC v } = f s
  bus : ∀ s b, b.memory = s.bus.memory → f { s with bus := b } = f s

/-- The observation `f` does not depend on the register `n`. -/
def IgnoresValue (f : System T → β) (n : ℕ) : Prop :=
  ∀ s v, f { s with regs := s.regs.setValue n v } = f s

/-- The observation `f` does not depend on the memory. -/
def IgnoresWrite (f : System T → β) : Prop := ∀ s b, f { s with bus := b } = f s

/-- The observation `f` does not depend on the reservations. -/
def IgnoresTlb (f : System T → β) : Prop := ∀ s t, f { s with tlbAEntries := t } = f s

/-- The observation `f` does not depend on the CSR `c`. -/
def IgnoresCSR (f : System T → β) (c : ℕ) : Prop :=
  ∀ s v, f { s with regs := s.regs.setCSR c v } = f s

variable {f : System T → β}

theorem Ignores.step (hf : Ignores f) : IgnoresStep f where
  setPC := hf.setPC
  bus := fun s b _ => hf.bus s b

attribute [local grind ←] Keeps.pure Keeps.throw Keeps.get Keeps.bind

/-! ## The building blocks -/

@[grind ←] theorem keeps_getValue (n : ℕ) : Keeps f (getValue n) := fun _ => rfl

@[grind ←] theorem keeps_getPC : Keeps f getPC := fun _ => rfl

@[grind ←] theorem keeps_getCSR (c : ℕ) : Keeps f (getCSR c) := fun _ => rfl

@[grind ←] theorem keeps_setValue {n : ℕ} (hn : IgnoresValue f n) (v : BitVec T.xlen) :
    Keeps f (setValue n v) := .modify fun s => hn s v

/-- Writes to `x0` are dropped. -/
@[grind ←] theorem ignoresValue_zero : IgnoresValue f 0 := fun s v => by
  rw [Registers.setValue_zero]

@[grind ←] theorem keeps_setPC (hf : IgnoresStep f) (v : BitVec T.xlen) : Keeps f (setPC v) :=
  .modify fun s => hf.setPC s v

@[grind ←] theorem keeps_incPC (hf : IgnoresStep f) : Keeps f incPC :=
  .modify fun s => hf.setPC s _

@[grind ←] theorem keeps_incPCby2 (hf : IgnoresStep f) : Keeps f incPCby2 :=
  .modify fun s => hf.setPC s _

@[grind ←] theorem keeps_setCSR {c : ℕ} (hc : IgnoresCSR f c) (v : BitVec T.xlen) :
    Keeps f (setCSR c v) := .modify fun s => hc s v

@[grind ←] theorem keeps_scStop (hf : IgnoresStep f) : Keeps f scStop :=
  .modify fun s => hf.bus s _ rfl

theorem keeps_bTransport_of_bus (hb : ∀ s b, f { s with bus := b } = f s) (trans : Payload) :
    Keeps f (bTransport trans) := by
  refine Keeps.get_bind fun s => ?_
  cases BusCtrl.bTransport s.bus s.host trans with
  | ok r => exact hb s r.1
  | error e => rfl

/-- A read over the bus leaves the memory as it is. -/
theorem keeps_bTransport_read (hf : ∀ s b, b.memory = s.bus.memory → f { s with bus := b } = f s)
    {trans : Payload} (hc : trans.command = .read) : Keeps f (bTransport trans) := by
  refine Keeps.get_bind fun s => ?_
  cases h : BusCtrl.bTransport s.bus s.host trans with
  | ok r => exact hf s r.1 (BusCtrl.bTransport_read hc h)
  | error e => rfl

theorem keeps_readDataMem_of_bus
    (hf : ∀ s b, b.memory = s.bus.memory → f { s with bus := b } = f s) (addr : BitVec 64)
    (size : ℕ) : Keeps f (readDataMem addr size) := by
  have ht (data : BitVec 32) : Keeps f (bTransport (MemoryInterface.trans .read addr data size)) :=
    keeps_bTransport_read hf rfl
  unfold readDataMem
  grind

@[grind ←] theorem keeps_readDataMem (hf : IgnoresStep f) (addr : BitVec 64) (size : ℕ) :
    Keeps f (readDataMem addr size) := keeps_readDataMem_of_bus hf.bus addr size

@[grind ←] theorem keeps_writeDataMem (hm : IgnoresWrite f) (addr : BitVec 64) (data : BitVec 32)
    (size : ℕ) : Keeps f (writeDataMem addr data size) := by
  have ht := keeps_bTransport_of_bus hm (MemoryInterface.trans .write addr data size)
  unfold writeDataMem
  grind

@[grind ←] theorem keeps_tlbReserve (ht : IgnoresTlb f) (a : BitVec 32) :
    Keeps f (AExtension.tlbReserve a) := .modify fun s => ht s _

@[grind ←] theorem keeps_tlbReserved (ht : IgnoresTlb f) (a : BitVec 32) :
    Keeps f (AExtension.tlbReserved a) := by
  refine Keeps.get_bind fun s => ?_
  split
  · exact ht s _
  · rfl

/-- The programs that keep an observation outside of what every instruction changes. -/
def keeping (hf : IgnoresStep f) : ProgramClass T where
  holds x := Keeps f x
  anyPC := True
  value := IgnoresValue f
  csr := IgnoresCSR f
  write := IgnoresWrite f
  tlb := IgnoresTlb f
  stop := True
  value_zero := ignoresValue_zero
  pure := .pure
  throw := .throw
  bind := .bind
  getValue := keeps_getValue
  getCSR := keeps_getCSR
  getPC_bind hk := .bind keeps_getPC fun pc => hk pc (.inl trivial)
  setValue v hn := keeps_setValue hn v
  setCSR v hc := keeps_setCSR hc v
  setPC _ := keeps_setPC hf _
  readDataMem := keeps_readDataMem hf
  writeDataMem addr data size hm := keeps_writeDataMem hm addr data size
  tlbReserve a ht := keeps_tlbReserve ht a
  tlbReserved a ht := keeps_tlbReserved ht a
  scStop _ := keeps_scStop hf

/-! ## A whole step -/

/-- What a decoded word leaves unchanged. -/
theorem keeps_execDecoded_of (hf : IgnoresStep f) {w : BitVec 32} {d : Decoded}
    (hv : ∀ n ∈ written w d, IgnoresValue f n) (hm : storing d = false ∨ IgnoresWrite f)
    (ht : reserving d = false ∨ IgnoresTlb f)
    (hc : ∀ c, csrAddressed w d = some c → IgnoresCSR f c)
    (hr : raiseOf T w d = none ∨ ∀ cause, Keeps f (raiseException cause w)) :
    Keeps f (execDecoded w d) := by
  refine (keeping hf).execDecoded w ⟨hv, hc, fun h => hm.resolve_left ?_,
    fun h => ht.resolve_left ?_, fun _ => trivial, fun cause h => hr.resolve_left ?_ cause,
    .inl trivial⟩
  all_goals simp [h]

/-- An observation outside the registers, the memory and the reservations. -/
theorem keeps_execDecoded (hf : Ignores f) {w : BitVec 32} {d : Decoded}
    (hc : ∀ c, csrAddressed w d = some c → IgnoresCSR f c)
    (hr : raiseOf T w d = none ∨ ∀ cause, Keeps f (raiseException cause w)) :
    Keeps f (execDecoded w d) :=
  keeps_execDecoded_of hf.step (fun n _ s v => hf.setValue s n v) (.inr hf.bus) (.inr hf.tlb) hc hr

/-- The observation `f` does not depend on what the fetch keeps between two steps. -/
structure IgnoresFetch (f : System T → β) : Prop where
  INSTR : ∀ s i, f { s with INSTR := i } = f s
  trans : ∀ s i a r,
    f { s with INSTR := i, transDmiAllowed := a, transResponseStatus := r } = f s
  dmi : ∀ s d, f { s with dmiPtrValid := d } = f s

theorem keeps_fetchDmi (h : ∀ s i, f { s with INSTR := i } = f s) : Keeps f fetchDmi := by
  refine Keeps.get_bind fun s => ?_
  dsimp only
  split
  · exact h s _
  · rfl

/-- What the fetch keeps when its transaction keeps it. -/
theorem keeps_fetch_of_bTransport (hf : IgnoresFetch f)
    (hb : ∀ s : System T, Keeps f (bTransport (fetchTrans s))) : Keeps f fetch := by
  have hd : Keeps f fetchDmi := keeps_fetchDmi hf.INSTR
  have hm : Keeps f fetchBus := by
    unfold fetchBus
    refine .bind .get fun s => .bind (hb s) fun trans =>
      .bind (.modify fun s => hf.trans s _ _ _) fun _ => ?_
    have hp : Keeps f (if trans.dmiAllowed then
        modify fun s : System T => { s with dmiPtrValid := s.bus.memory.getDirectMemPtr }
        else pure () : Sim T Unit) :=
      .ite (.modify fun s => hf.dmi s _) (.pure _)
    exact .ite (.bind (.throw _) fun _ => hp) hp
  unfold fetch
  grind

theorem keeps_fetch (hf : IgnoresFetch f) (hb : ∀ s b, f { s with bus := b } = f s) :
    Keeps f fetch :=
  keeps_fetch_of_bTransport hf fun _ => keeps_bTransport_of_bus hb _

/-- An observation outside the registers, the bus, the reservations, the CSRs and what the fetch
keeps. -/
theorem keeps_cpuStep (hf : Ignores f) (hi : IgnoresFetch f) (hc : ∀ c, IgnoresCSR f c)
    (hr : ∀ cause w, Keeps f (raiseException cause w)) : Keeps f cpuStep :=
  .bind (keeps_fetch hi hf.bus) fun w =>
    keeps_execDecoded hf (fun c _ => hc c) (.inr fun cause => hr cause w)

/-- The fetch reads, so it does not change the memory. -/
theorem keeps_fetch_memory : Keeps (fun s : System T => s.bus.memory) fetch := by
  exact keeps_fetch_of_bTransport ⟨fun _ _ => rfl, fun _ _ _ _ => rfl, fun _ _ => rfl⟩ fun s =>
    keeps_bTransport_read (fun _ _ h => h) rfl

end RiscvTlm
