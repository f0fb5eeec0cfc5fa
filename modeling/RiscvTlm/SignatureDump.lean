import RiscvTlm.DataAccess
import RiscvTlm.Simulator
import Mathlib.Data.List.Iterate

/-!
# The signature file

What the lines of a memory dump are. Inside the memory they are its words. Outside it the target
answers with an error, which the loop does not look at, and the variable for the data keeps the word
of the line before. The counter of the loop wraps around where the range reaches the end of the
address space.
-/

namespace RiscvTlm

open ByteMemory

variable {T : CpuType} {s : System T} {options : DumpOptions} {filename : List Char}
  {memory : Memory} {trans : Payload} {data i stop : BitVec 32} {fuel n : ℕ}
  {lines : List DumpLine}

/-- The start that is asked for: the option, or `t0` without it. -/
def askedStart (s : System T) (options : DumpOptions) : BitVec 32 :=
  options.B.getD ((s.regs.getValue 5).setWidth 32)

/-- The end that is asked for: the option, or `t1` without it. -/
def askedEnd (s : System T) (options : DumpOptions) : BitVec 32 :=
  options.E.getD ((s.regs.getValue 6).setWidth 32)

/-- How many of `start`, `start + 4`, ... are below `stop`. -/
def wordCount (start stop : BitVec 32) : ℕ := (stop.toNat - start.toNat + 3) / 4

/-- The addresses `start`, `start + 4`, ... below `stop`. -/
def wordAddresses (start stop : BitVec 32) : List (BitVec 32) :=
  List.iterate (· + 4) start (wordCount start stop)

/-- The line does not repeat the word of an earlier one for an address outside the memory. -/
def NotStale (l l' : DumpLine) : Prop := Memory.SIZE ≤ l'.address.toNat → l'.word ≠ l.word

/-- The dump ends with one line for each address asked for, in order: inside the memory the
little-endian word there, outside it no word of an earlier line. -/
def DumpExact (s : System T) (options : DumpOptions) (filename : List Char) (data : BitVec 32) :
    Prop :=
  ∃ fuel file, memoryDump fuel s options filename data = .ok (some file) ∧
    file.lines.map DumpLine.address = wordAddresses (askedStart s options) (askedEnd s options) ∧
    (∀ l ∈ file.lines, l.address.toNat < Memory.SIZE →
      l.word = read 32 s.mem l.address.toNat 4) ∧
    file.lines.Pairwise NotStale

/-- All words of the range lie inside the memory, or it is a single word outside it, after which the
counter does not wrap around. -/
def RangeFits (start stop : BitVec 32) : Prop :=
  start.toNat + 4 * wordCount start stop ≤ Memory.SIZE ∨
    Memory.SIZE ≤ start.toNat ∧ stop.toNat ≤ start.toNat + 4 ∧ start.toNat + 4 < 2 ^ 32

instance (start stop : BitVec 32) : Decidable (RangeFits start stop) :=
  inferInstanceAs (Decidable (_ ∨ _ ∧ _))

/-- The range asked for is the one taken and fits, or it is empty and so is the one taken. -/
def DumpFits (s : System T) (options : DumpOptions) : Prop :=
  if askedStart s options < askedEnd s options then
    dumpStart s options = askedStart s options ∧
      RangeFits (askedStart s options) (askedEnd s options)
  else ¬dumpStart s options < dumpEnd s options

instance (s : System T) (options : DumpOptions) : Decidable (DumpFits s options) :=
  inferInstanceAs (Decidable (ite _ _ _))

/-! ## A turn -/

/-- The fields that the loop does not change. -/
structure Ready (trans : Payload) : Prop where
  command : trans.command = .read
  dataLength : trans.dataLength = 4
  streamingWidth : trans.streamingWidth = 4
  byteEnable : trans.byteEnable = false

theorem ready_dumpTrans (data : BitVec 32) : Ready (dumpTrans data) := ⟨rfl, rfl, rfl, rfl⟩

/-- What a turn does: it reads a word, or leaves the variable as it is. -/
inductive Turn (memory : Memory) (trans : Payload) (i : BitVec 32) (trans' : Payload) : Prop
  | inside (h : i.toNat + 4 ≤ Memory.SIZE) (hw : trans'.data = read 32 memory.mem i.toNat 4)
  | outside (h : Memory.SIZE ≤ i.toNat) (hw : trans'.data = trans.data)

theorem toNat_address (i : BitVec 32) : (i.setWidth 64).toNat = i.toNat :=
  BitVec.toNat_setWidth_of_le (by decide)

/-- The transport of a turn that starts inside the memory. -/
theorem bTransport_ready (hr : Ready trans) (h : i.toNat < Memory.SIZE) :
    memory.bTransport { trans with address := i.setWidth 64 } =
      if i.toNat + 4 ≤ Memory.SIZE then
        .ok (memory, { trans with
          address := i.setWidth 64
          data := copyBytes trans.data (fun j => memory.mem (i.toNat + j)) 4
          dmiAllowed := memory.dmiAllowed
          responseStatus := .ok })
      else .error .undefinedBehaviour := by
  have ha : ({ trans with address := i.setWidth 64 } : Payload).address.toNat < Memory.SIZE :=
    (toNat_address i).trans_lt h
  rw [Memory.bTransport_read_eq ha hr.byteEnable hr.dataLength.le hr.streamingWidth hr.command]
  simp only [toNat_address, hr.dataLength]

/-- The transport of a turn, unless the word runs over the end of the memory. -/
theorem bTransport_turn (memory : Memory) (hr : Ready trans)
    (h : i.toNat + 4 ≤ Memory.SIZE ∨ Memory.SIZE ≤ i.toNat) :
    ∃ trans', memory.bTransport { trans with address := i.setWidth 64 } = .ok (memory, trans') ∧
      Ready trans' ∧ Turn memory trans i trans' := by
  by_cases ha : Memory.SIZE ≤ i.toNat
  · refine ⟨{ trans with address := i.setWidth 64, responseStatus := .addressError }, ?_,
      ⟨hr.command, hr.dataLength, hr.streamingWidth, hr.byteEnable⟩, .outside ha rfl⟩
    rw [Memory.bTransport, if_pos ((toNat_address i).symm ▸ ha)]
    rfl
  · have h4 : i.toNat + 4 ≤ Memory.SIZE := h.resolve_right ha
    exact ⟨_, (bTransport_ready hr (not_le.mp ha)).trans (if_pos h4),
      ⟨hr.command, hr.dataLength, hr.streamingWidth, hr.byteEnable⟩,
      .inside h4 (copyBytes_eq_read _ _ _)⟩

/-- A word over the end of the memory has no defined result. -/
theorem bTransport_straddle (hr : Ready trans) (h : i.toNat < Memory.SIZE)
    (h4 : ¬i.toNat + 4 ≤ Memory.SIZE) :
    memory.bTransport { trans with address := i.setWidth 64 } = .error .undefinedBehaviour :=
  (bTransport_ready hr h).trans (if_neg h4)

/-! ## The loop -/

theorem dumpLoop_stop (h : ¬i < stop) :
    dumpLoop stop memory trans i (fuel + 1) = .ok (some []) := by
  rw [dumpLoop, if_neg h]
  rfl

theorem dumpLoop_turn {r : Memory × Payload} (h : i < stop)
    (hr : memory.bTransport { trans with address := i.setWidth 64 } = .ok r) :
    dumpLoop stop memory trans i (fuel + 1) =
      (dumpLoop stop r.1 r.2 (i + 4) fuel).map (Option.map (⟨i, r.2.data⟩ :: ·)) := by
  rw [dumpLoop, if_pos h, hr]
  show (dumpLoop stop r.1 r.2 (i + 4) fuel).bind _ = _
  cases dumpLoop stop r.1 r.2 (i + 4) fuel with
  | error e => rfl
  | ok lines => cases lines <;> rfl

/-- A loop that ends has not started, or has made a turn. -/
theorem dumpLoop_cases (hr : Ready trans)
    (h : dumpLoop stop memory trans i fuel = .ok (some lines)) :
    (¬i < stop ∧ lines = []) ∨ i < stop ∧ ∃ fuel' trans' lines', fuel = fuel' + 1 ∧
      lines = ⟨i, trans'.data⟩ :: lines' ∧ Ready trans' ∧ Turn memory trans i trans' ∧
      dumpLoop stop memory trans' (i + 4) fuel' = .ok (some lines') := by
  cases fuel with
  | zero => cases h
  | succ fuel =>
    by_cases hi : i < stop
    · refine .inr ⟨hi, ?_⟩
      by_cases hin : i.toNat + 4 ≤ Memory.SIZE ∨ Memory.SIZE ≤ i.toNat
      · obtain ⟨trans', ht, hr', hturn⟩ := bTransport_turn memory hr hin
        rw [dumpLoop_turn hi ht] at h
        cases hl : dumpLoop stop memory trans' (i + 4) fuel with
        | error e =>
          rw [hl] at h
          cases h
        | ok lines' =>
          rw [hl] at h
          obtain ⟨lines', rfl, rfl⟩ := Option.map_eq_some_iff.mp (Except.ok.inj h)
          exact ⟨fuel, trans', lines', rfl, rfl, hr', hturn, hl⟩
      · obtain ⟨h4, hlt⟩ := not_or.mp hin
        rw [dumpLoop, if_pos hi, bTransport_straddle hr (not_le.mp hlt) h4] at h
        cases h
    · rw [dumpLoop_stop hi] at h
      cases h
      exact .inl ⟨hi, rfl⟩

/-! ## Words of a range -/

theorem toNat_next (h : i.toNat + 4 < 2 ^ 32) : (i + 4).toNat = i.toNat + 4 := by
  rw [BitVec.toNat_add]
  exact Nat.mod_eq_of_lt h

theorem wordCount_eq_zero_iff : wordCount i stop = 0 ↔ ¬i < stop := by
  rw [BitVec.lt_def]
  unfold wordCount
  omega

theorem wordCount_eq_succ (h : i < stop) (h4 : i.toNat + 4 < 2 ^ 32) :
    wordCount i stop = wordCount (i + 4) stop + 1 := by
  rw [BitVec.lt_def] at h
  unfold wordCount
  rw [toNat_next h4]
  omega

/-- A range inside the memory is dumped. -/
theorem dumpLoop_inside (memory : Memory) (hr : Ready trans) (hn : wordCount i stop = n)
    (hsize : i.toNat + 4 * n ≤ Memory.SIZE) :
    ∃ lines, dumpLoop stop memory trans i (n + 1) = .ok (some lines) ∧
      lines.map DumpLine.address = List.iterate (· + 4) i n ∧
      ∀ l ∈ lines, l.address.toNat < Memory.SIZE ∧
        l.word = read 32 memory.mem l.address.toNat 4 := by
  induction n generalizing i trans with
  | zero => exact ⟨[], dumpLoop_stop (wordCount_eq_zero_iff.mp hn), rfl, List.forall_mem_nil _⟩
  | succ n ih =>
    have hi : i < stop := by
      by_contra h
      rw [wordCount_eq_zero_iff.mpr h] at hn
      exact absurd hn (Nat.succ_ne_zero n).symm
    have h4 : i.toNat + 4 ≤ Memory.SIZE := by omega
    have hwrap : i.toNat + 4 < 2 ^ 32 := h4.trans_lt (by decide)
    obtain ⟨trans', ht, hr', hturn⟩ := bTransport_turn memory hr (.inl h4)
    have hn' : wordCount (i + 4) stop = n := by
      rw [wordCount_eq_succ hi hwrap] at hn
      exact Nat.succ.inj hn
    obtain ⟨lines, hl, hmap, hall⟩ := ih hr' hn' (by rw [toNat_next hwrap]; omega)
    have hlt : i.toNat < Memory.SIZE := by omega
    refine ⟨⟨i, trans'.data⟩ :: lines, ?_, ?_, List.forall_mem_cons.mpr ⟨⟨hlt, ?_⟩, hall⟩⟩
    · rw [dumpLoop_turn hi ht, hl]
      rfl
    · rw [List.map_cons, hmap]
      rfl
    · cases hturn with
      | inside _ hw => exact hw
      | outside h => omega

/-- A single word outside the memory is dumped. -/
theorem dumpLoop_outside (hr : Ready trans) (hi : i < stop) (h : Memory.SIZE ≤ i.toNat)
    (hstop : stop.toNat ≤ i.toNat + 4) (hwrap : i.toNat + 4 < 2 ^ 32) :
    dumpLoop stop memory trans i 2 = .ok (some [⟨i, trans.data⟩]) := by
  obtain ⟨trans', ht, hr', hturn⟩ := bTransport_turn memory hr (.inr h)
  have hnext : ¬i + 4 < stop := by
    rw [BitVec.lt_def, toNat_next hwrap]
    exact not_lt.mpr hstop
  have hw : trans'.data = trans.data := by
    cases hturn with
    | inside h4 => omega
    | outside _ hw => exact hw
  rw [dumpLoop_turn hi ht, dumpLoop_stop hnext, ← hw]
  rfl

/-! ## What a dump without stale words shows -/

/-- From an address inside the memory, a loop that ends without a stale word stays inside. -/
theorem inside_of_dumpLoop (hr : Ready trans)
    (h : dumpLoop stop memory trans i fuel = .ok (some lines)) (hs : lines.Pairwise NotStale)
    (hi : i < stop) (hlt : i.toNat < Memory.SIZE) :
    i.toNat + 4 * wordCount i stop ≤ Memory.SIZE := by
  induction fuel generalizing i trans lines with
  | zero => cases h
  | succ fuel ih =>
    obtain ⟨hn, -⟩ | ⟨-, fuel', trans', lines', hfuel, rfl, hr', hturn, h'⟩ := dumpLoop_cases hr h
    · exact absurd hi hn
    · cases hfuel
      cases hturn with
      | outside ho => omega
      | inside h4 hw =>
        have hwrap : i.toNat + 4 < 2 ^ 32 := h4.trans_lt (by decide)
        have hnat := toNat_next hwrap
        obtain ⟨hfirst, hrest⟩ := List.pairwise_cons.mp hs
        rw [wordCount_eq_succ hi hwrap]
        obtain ⟨hn, -⟩ | ⟨hi', -, trans'', lines'', -, rfl, -, hturn', -⟩ := dumpLoop_cases hr' h'
        · rw [wordCount_eq_zero_iff.mpr hn]
          omega
        · by_cases hlt' : (i + 4).toNat < Memory.SIZE
          · have hle := ih hr' h' hrest hi' hlt'
            omega
          · -- the next line would repeat the word of this one
            cases hturn' with
            | inside h4' => omega
            | outside ho hw' => exact absurd hw' (hfirst _ List.mem_cons_self ho)

/-- From an address outside the memory, such a loop has one turn if its lines are those of the
range. -/
theorem outside_of_dumpLoop (hr : Ready trans)
    (h : dumpLoop stop memory trans i fuel = .ok (some lines)) (hs : lines.Pairwise NotStale)
    (hl : lines.length = wordCount i stop) (hi : i < stop) (ho : Memory.SIZE ≤ i.toNat) :
    stop.toNat ≤ i.toNat + 4 ∧ i.toNat + 4 < 2 ^ 32 := by
  obtain ⟨hn, -⟩ | ⟨-, fuel', trans', lines', -, rfl, hr', hturn, h'⟩ := dumpLoop_cases hr h
  · exact absurd hi hn
  have hlt := BitVec.lt_def.mp hi
  have hstop := stop.isLt
  obtain ⟨hfirst, -⟩ := List.pairwise_cons.mp hs
  by_cases hwrap : i.toNat + 4 < 2 ^ 32
  · have hnat := toNat_next hwrap
    obtain ⟨hn, -⟩ | ⟨-, -, trans'', lines'', -, rfl, -, hturn', -⟩ := dumpLoop_cases hr' h'
    · rw [BitVec.lt_def, hnat, not_lt] at hn
      exact ⟨hn, hwrap⟩
    · cases hturn' with
      | inside h4' => omega
      | outside ho' hw' => exact absurd hw' (hfirst _ List.mem_cons_self ho')
  · -- the counter wraps around below the end of the range, and there is a line too many
    have hnat : (i + 4).toNat < 4 := by
      rw [BitVec.toNat_add]
      show (i.toNat + 4) % 2 ^ 32 < 4
      omega
    obtain ⟨hn, -⟩ | ⟨-, -, trans'', lines'', -, rfl, -, -, -⟩ := dumpLoop_cases hr' h'
    · rw [BitVec.lt_def] at hn
      omega
    · unfold wordCount at hl
      simp only [List.length_cons] at hl
      omega

/-! ## The dump -/

theorem memoryDump_eq_ok {file : SignatureFile} :
    memoryDump fuel s options filename data = .ok (some file) ↔
      dumpLoop (dumpEnd s options) s.bus.memory (dumpTrans data) (dumpStart s options) fuel =
        .ok (some file.lines) ∧ file.localName = signatureName filename := by
  unfold memoryDump
  dsimp only
  obtain ⟨name, lines⟩ := file
  cases dumpLoop (dumpEnd s options) s.bus.memory (dumpTrans data) (dumpStart s options) fuel with
  | error e => exact iff_of_false (by rintro ⟨⟩) fun h => (by cases h.1)
  | ok r =>
    cases r with
    | none => exact iff_of_false (by rintro ⟨⟩) fun h => (by cases h.1)
    | some lines' =>
      constructor
      · rintro ⟨⟩
        exact ⟨rfl, rfl⟩
      · rintro ⟨h, rfl⟩
        cases h
        rfl

/-- A range that is not empty has the end that is asked for. -/
theorem dumpEnd_eq (h : askedStart s options < askedEnd s options) :
    dumpEnd s options = askedEnd s options := by
  unfold dumpEnd DumpOptions.dumpAddrEnd
  unfold askedEnd at h ⊢
  cases he : options.E with
  | none =>
    rw [Option.getD_none, if_pos rfl]
    exact BitVec.setWidth_setWidth_of_le _ (by decide)
  | some e =>
    rw [he, Option.getD_some, BitVec.lt_def] at h
    have h0 : e ≠ 0 := by
      rintro rfl
      exact absurd h (Nat.not_lt_zero _)
    exact if_neg h0

theorem dumpFits_of_exact (h : DumpExact s options filename data) : DumpFits s options := by
  obtain ⟨fuel, file, hd, hmap, -, hs⟩ := h
  obtain ⟨hl, -⟩ := memoryDump_eq_ok.mp hd
  have hr := ready_dumpTrans data
  have hlen := congrArg List.length hmap
  rw [List.length_map, wordAddresses, List.length_iterate] at hlen
  unfold DumpFits
  split
  next hlt =>
    rw [dumpEnd_eq hlt] at hl
    -- the first line tells where the range taken starts
    have hstart : dumpStart s options = askedStart s options ∧
        dumpStart s options < askedEnd s options := by
      obtain ⟨-, hnil⟩ | ⟨hi, -, trans', lines', -, hcons, -⟩ := dumpLoop_cases hr hl
      · rw [hnil] at hlen
        exact absurd (wordCount_eq_zero_iff.mp hlen.symm) (not_not_intro hlt)
      · obtain ⟨n, hn⟩ := Nat.exists_eq_succ_of_ne_zero fun h0 =>
          wordCount_eq_zero_iff.mp h0 hlt
        rw [hcons, wordAddresses, hn] at hmap
        exact ⟨(List.cons.inj hmap).1, hi⟩
    obtain ⟨he, hi⟩ := hstart
    refine ⟨he, ?_⟩
    rw [← he] at hlen ⊢
    by_cases hsize : (dumpStart s options).toNat < Memory.SIZE
    · exact .inl (inside_of_dumpLoop hr hl hs hi hsize)
    · have ho := not_lt.mp hsize
      exact .inr ⟨ho, outside_of_dumpLoop hr hl hs hlen hi ho⟩
  next hlt =>
    rw [wordCount_eq_zero_iff.mpr hlt] at hlen
    obtain ⟨hn, -⟩ | ⟨-, -, trans', lines', -, hcons, -⟩ := dumpLoop_cases hr hl
    · exact hn
    · rw [hcons] at hlen
      exact absurd hlen (Nat.succ_ne_zero _)

theorem exact_of_dumpFits (h : DumpFits s options) : DumpExact s options filename data := by
  have hr := ready_dumpTrans data
  unfold DumpFits at h
  split at h
  next hlt =>
    obtain ⟨he, hfits⟩ := h
    rcases hfits with hin | ⟨ho, hstop, hwrap⟩
    · obtain ⟨lines, hl, hmap, hall⟩ := dumpLoop_inside s.bus.memory hr rfl hin
      refine ⟨wordCount (askedStart s options) (askedEnd s options) + 1,
        ⟨signatureName filename, lines⟩, memoryDump_eq_ok.mpr ⟨?_, rfl⟩, hmap,
        fun l hmem _ => (hall l hmem).2, ?_⟩
      · rw [dumpEnd_eq hlt, he]
        exact hl
      · refine List.pairwise_of_forall_mem_list fun l _ l' hl' hsize => ?_
        exact absurd (hall l' hl').1 (not_lt.mpr hsize)
    · refine ⟨2, ⟨signatureName filename, [⟨askedStart s options, data⟩]⟩,
        memoryDump_eq_ok.mpr ⟨?_, rfl⟩, ?_, ?_, List.pairwise_singleton _ _⟩
      · rw [dumpEnd_eq hlt, he]
        exact dumpLoop_outside hr hlt ho hstop hwrap
      · have hone : wordCount (askedStart s options) (askedEnd s options) = 1 := by
          rw [BitVec.lt_def] at hlt
          unfold wordCount
          omega
        rw [wordAddresses, hone]
        rfl
      · intro l hmem hsize
        rw [List.mem_singleton.mp hmem] at hsize
        exact absurd hsize (not_lt.mpr ho)
  next hlt =>
    refine ⟨1, ⟨signatureName filename, []⟩, memoryDump_eq_ok.mpr ⟨dumpLoop_stop h, rfl⟩, ?_,
      List.forall_mem_nil _, .nil⟩
    rw [wordAddresses, wordCount_eq_zero_iff.mpr hlt]
    rfl

/-- The dump is exact just when the range fits. -/
theorem dumpExact_iff : DumpExact s options filename data ↔ DumpFits s options :=
  ⟨dumpFits_of_exact, exact_of_dumpFits⟩

/-- A range up to the end of the address space, a range that runs out of the memory, and one from
address zero with another address in `t0`. -/
theorem not_dumpExact :
    ¬DumpExact (start .RV32 []) ⟨some 0xFFFFFFFC, some 0xFFFFFFFF⟩ "add.elf.hex".toList 0 ∧
    ¬DumpExact (start .RV32 []) ⟨some 0xFFFFFC, some 0x1000004⟩ "add.elf.hex".toList 0 ∧
    ¬DumpExact ((start .RV32 []).setReg 5 8) ⟨some 0, some 0x10⟩ "add.elf.hex".toList 0 := by
  refine ⟨fun h => ?_, fun h => ?_, fun h => ?_⟩
  · exact absurd (dumpFits_of_exact h) (by decide)
  · exact absurd (dumpFits_of_exact h) (by decide)
  · exact absurd (dumpFits_of_exact h) (by decide)

end RiscvTlm
