import RiscvTlm.LoadsStores

/-!
# Coherence of loads and stores

After any sequence of stores, with any code between them that leaves the memory alone, a load finds
in each byte the one of the latest store that covers it, and the initial byte where there is none. A
doubleword store is the same as two word stores, and a doubleword load finds what two word loads
find.
-/

namespace RiscvTlm

open Bytes ByteMemory

variable {T : CpuType} {s t u : System T} {l : List Write}

/-- The stores `l`, the latest first, lead from `s` to `t`. Between them anything may happen that
leaves the memory array as it is. -/
inductive StoreRun (s : System T) : List Write → System T → Prop
  | nil : StoreRun s [] s
  | store {t u : System T} {l : List Write} {op : StoreOp} {w : BitVec 32} {b : Bool}
      (h : StoreRun s l t) (hin : (op.addr w t).toNat + op.width ≤ Memory.SIZE)
      (he : (op.exec w).run t = .ok b u) : StoreRun s (op.write w t :: l) u
  | other {t u : System T} {l : List Write} (h : StoreRun s l t) (hm : u.mem = t.mem) :
      StoreRun s l u

/-- The memory after a sequence of stores. -/
theorem StoreRun.mem_eq (h : StoreRun s l t) : t.mem = writeAll s.mem l := by
  induction h with
  | nil => rfl
  | store _ hin he ih =>
    rw [StoreOp.run_exec _ _ _ hin] at he
    cases he
    rw [mem_setMem, ih, writeAll]
  | other _ hm ih => rw [hm, ih]

/-- A load after a sequence of stores, byte by byte. -/
theorem byte_found (h : StoreRun s l t) (op : LoadOp) (w : BitVec 32) {i : ℕ} (hi : i < op.width) :
    byte (op.found w t) i = latestByte s.mem l ((op.addr w t).toNat + i) := by
  have hw : 8 * op.width ≤ 64 := by cases op <;> decide
  rw [LoadOp.found, byte_read hi hw, h.mem_eq, writeAll_apply]

/-- A doubleword store at `a` against word stores at `a` and `a + 4`. -/
theorem write_double {op op₁ op₂ : StoreOp} {w w₁ w₂ : BitVec 32} {s s₁ s₂ : System T}
    (h8 : op.width = 8) (h4₁ : op₁.width = 4) (h4₂ : op₂.width = 4)
    (ha₁ : (op₁.addr w₁ s₁).toNat = (op.addr w s).toNat)
    (ha₂ : (op₂.addr w₂ s₂).toNat = (op.addr w s).toNat + 4)
    (hv₁ : (op₁.value w₁ s₁).setWidth 32 = (op.value w s).setWidth 32)
    (hv₂ : (op₂.value w₂ s₂).setWidth 32 = (op.value w s >>> 32).setWidth 32) (mem : Mem) :
    writeAll mem [op.write w s] = writeAll mem [op₂.write w₂ s₂, op₁.write w₁ s₁] := by
  have hword {x : BitVec 64} {a : ℕ} {mem : Mem} :
      (Write.ofNum a 4 x).apply mem = (Write.ofNum a 4 (x.setWidth 32)).apply mem :=
    Write.ofNum_congr fun i hi => (byte_setWidth x (by omega)).symm
  simp only [writeAll, StoreOp.write, h8, h4₁, h4₂, ha₁, ha₂]
  rw [← ofNum_words, hword, hword (x := op₁.value w₁ s₁), hv₁, hv₂]

/-- A doubleword load at `a` against word loads at `a` and `a + 4`. -/
theorem found_double {op op₁ op₂ : LoadOp} {w w₁ w₂ : BitVec 32} {t t₁ t₂ : System T}
    (h8 : op.width = 8) (h4₁ : op₁.width = 4) (h4₂ : op₂.width = 4)
    (hm₁ : t₁.mem = t.mem) (hm₂ : t₂.mem = t.mem)
    (ha₁ : (op₁.addr w₁ t₁).toNat = (op.addr w t).toNat)
    (ha₂ : (op₂.addr w₂ t₂).toNat = (op.addr w t).toNat + 4) :
    op.found w t = op₁.found w₁ t₁ ||| op₂.found w₂ t₂ <<< 32 := by
  simp only [LoadOp.found, h8, h4₁, h4₂, ha₁, ha₂, hm₁, hm₂]
  exact read_add t.mem _ 4 4

/-- A store whose bytes lie inside the memory returns. -/
theorem StoreRun.exists_store (h : StoreRun s l t) (op : StoreOp) (w : BitVec 32)
    (hin : (op.addr w t).toNat + op.width ≤ Memory.SIZE) :
    ∃ u, (op.exec w).run t = .ok true u ∧ StoreRun s (op.write w t :: l) u :=
  ⟨_, op.run_exec w t hin, .store h hin (op.run_exec w t hin)⟩

/-- After any stores inside the memory there can be another one, loads see the latest stores, byte
by byte, and the doubleword accesses are pairs of word accesses. -/
theorem load_after_stores (h : StoreRun s l t) :
    (∀ (op : StoreOp) (w : BitVec 32), (op.addr w t).toNat + op.width ≤ Memory.SIZE →
      ∃ u, (op.exec w).run t = .ok true u ∧ StoreRun s (op.write w t :: l) u) ∧
    (∀ (op : LoadOp) (w : BitVec 32), (op.addr w t).toNat + op.width ≤ Memory.SIZE →
      (op.exec w).run t = .ok true (t.setReg (op.rd w) (op.extend (op.found w t))) ∧
        ∀ i < op.width,
          byte (op.found w t) i = latestByte s.mem l ((op.addr w t).toNat + i)) ∧
    (∀ {op op₁ op₂ : StoreOp} {w w₁ w₂ : BitVec 32} {s₁ s₂ u v : System T},
      op.width = 8 → op₁.width = 4 → op₂.width = 4 →
      StoreRun t [op.write w t] u → StoreRun t [op₂.write w₂ s₂, op₁.write w₁ s₁] v →
      (op₁.addr w₁ s₁).toNat = (op.addr w t).toNat →
      (op₂.addr w₂ s₂).toNat = (op.addr w t).toNat + 4 →
      (op₁.value w₁ s₁).setWidth 32 = (op.value w t).setWidth 32 →
      (op₂.value w₂ s₂).setWidth 32 = (op.value w t >>> 32).setWidth 32 → u.mem = v.mem) ∧
    (∀ {op op₁ op₂ : LoadOp} {w w₁ w₂ : BitVec 32} {t₁ t₂ : System T},
      op.width = 8 → op₁.width = 4 → op₂.width = 4 → t₁.mem = t.mem → t₂.mem = t.mem →
      (op₁.addr w₁ t₁).toNat = (op.addr w t).toNat →
      (op₂.addr w₂ t₂).toNat = (op.addr w t).toNat + 4 →
      op.found w t = op₁.found w₁ t₁ ||| op₂.found w₂ t₂ <<< 32) := by
  refine ⟨h.exists_store, fun op w hin => ?_, ?_, ?_⟩
  · exact ⟨op.run_exec w t hin, fun i hi => byte_found h op w hi⟩
  · intro op op₁ op₂ w w₁ w₂ s₁ s₂ u v h8 h4₁ h4₂ hu hv ha₁ ha₂ hv₁ hv₂
    rw [hu.mem_eq, hv.mem_eq, write_double h8 h4₁ h4₂ ha₁ ha₂ hv₁ hv₂]
  · intro op op₁ op₂ w w₁ w₂ t₁ t₂ h8 h4₁ h4₂ hm₁ hm₂ ha₁ ha₂
    exact found_double h8 h4₁ h4₂ hm₁ hm₂ ha₁ ha₂

/-- `sw x2, 256(x0)`, then `lhu x5, 258(x0)` finds the upper halfword of `x2`. -/
theorem load_after_stores_lhu :
    ∃ t, StoreRun (start .RV32 []) [StoreOp.SW.write 0x10202023 (start .RV32 [])] t ∧
      (LoadOp.LHU.exec 0x10205283).run t = .ok true (t.setReg 5 0x3F) := by
  have h : StoreRun (start .RV32 []) [StoreOp.SW.write 0x10202023 (start .RV32 [])]
      ((start .RV32 []).setMem ((StoreOp.SW.write 0x10202023 (start .RV32 [])).apply
        (start .RV32 []).mem)) := .store .nil (by decide) (StoreOp.run_exec .SW _ _ (by decide))
  have hl := ((load_after_stores h).2.1 .LHU 0x10205283 (by decide)).1
  have hx : LoadOp.LHU.extend (T := .RV32) (LoadOp.LHU.found 0x10205283
      ((start .RV32 []).setMem ((StoreOp.SW.write 0x10202023 (start .RV32 [])).apply
        (start .RV32 []).mem))) = 0x3F := by decide
  rw [hx] at hl
  exact ⟨_, h, hl⟩

end RiscvTlm
