import RiscvTlm.Lib.IntelHex
import Mathlib.Tactic.IntervalCases
import RiscvTlm.MemoryBounds

/-!
# Loading records

What `readHexFile` does with the complete records of the Intel HEX format. The record types set
their own variables, `extended_address` and `memory_offset`, and the base is the sum of both; an
end-of-file record is passed over. The memory is the image that the format describes exactly when no
byte that this misplaces shows.
-/

namespace RiscvTlm.Memory

open CString HexText IntelHex WriteLog

variable {st : HexLoad} {line s : List Char} {r : Record} {bs : List (BitVec 8)} {n k j : ℕ}

/-! ## Fields of a record -/

/-- A field of whole bytes. -/
theorem hexField_bytes (h : bytes n s = some bs) (hk : k + j ≤ n) (hj : 0 < j) :
    hexField (':' :: s) (2 * k + 1) (2 * j) = .ok (value ((bs.drop k).take j) : ℤ) := by
  have hlen := (bytes_length h).2
  have hsub : substr (':' :: s) (2 * k + 1) (2 * j) = some ((s.drop (2 * k)).take (2 * j)) := by
    refine if_pos ?_
    rw [List.length_cons]
    omega
  have htake : ((s.drop (2 * k)).take (2 * j)).length = 2 * j := by
    rw [List.length_take, List.length_drop]
    omega
  rw [hexField, hsub]
  dsimp only
  rw [strtol_bytes (bytes_take_drop h hk) htake hj]

/-- The record type that the code takes a type for. -/
def recordType : ℕ → RecordType
  | 0 => .data
  | 2 => .segment
  | 3 => .startSegment
  | 4 => .offset
  | 5 => .start
  | _ => .other

theorem lineType_bytes {count hi lo type : BitVec 8}
    (h : bytes n s = some (count :: hi :: lo :: type :: bs)) (ht : type.toNat < 6) :
    lineType (':' :: s) = .ok (recordType type.toNat) := by
  have h1 := bytes_take_drop h (show 3 + 1 ≤ n by
    have hlen := (bytes_length h).1
    simp only [List.length_cons] at hlen
    omega)
  have hlen := (bytes_length h1).2
  obtain ⟨c, c', s', b, bs', hs, hb, hbyte, -⟩ := bytes_succ h1
  cases hb
  obtain ⟨d, e, hd, he, hde⟩ := byteOf_eq_some hbyte
  have hd0 : d = 0 := by omega
  have he6 : e < 6 := by omega
  have hs' : s' = [] := by
    have hl := congrArg List.length hs
    rw [List.length_take] at hl
    simp only [List.length_cons] at hl
    exact List.eq_nil_of_length_eq_zero (by omega)
  have hsub : substr (':' :: s) 7 2 = some [c, c'] := by
    rw [← hs', ← hs]
    refine if_pos ?_
    rw [List.length_take, List.length_drop] at hlen
    rw [List.length_cons]
    omega
  rw [lineType, if_pos List.head?_cons, hsub, digit_decimal hd (by omega),
    digit_decimal he (by omega), hde, hd0]
  clear hde he
  interval_cases e <;> rfl

section Frame

variable {f : Frame} (h : frame line = some f)

include h

theorem lineType_frame (ht : f.type.toNat < 6) :
    lineType line = .ok (recordType f.type.toNat) := by
  obtain ⟨s, count, hi, lo, check, rfl, -, -, hb⟩ := frame_eq_some h
  exact lineType_bytes hb ht

theorem hexField_count : hexField line 1 2 = .ok (f.data.length : ℤ) := by
  obtain ⟨s, count, hi, lo, check, rfl, hcount, -, hb⟩ := frame_eq_some h
  have hv : value [count] = f.data.length := by
    rw [← hcount]
    exact Nat.zero_add _
  have hf := hexField_bytes hb (show 0 + 1 ≤ f.data.length + 5 by omega) Nat.one_pos
  exact hf.trans (congrArg (fun v : ℕ => Except.ok (v : ℤ)) hv)

theorem hexField_address : hexField line 3 4 = .ok (f.address.toNat : ℤ) := by
  obtain ⟨s, count, hi, lo, check, rfl, -, haddr, hb⟩ := frame_eq_some h
  rw [haddr, ← value_two]
  exact hexField_bytes hb (show 1 + 2 ≤ f.data.length + 5 by omega) Nat.two_pos

theorem hexField_data (hk : k + j ≤ f.data.length) (hj : 0 < j) :
    hexField line (9 + k * 2) (2 * j) = .ok (value ((f.data.drop k).take j) : ℤ) := by
  obtain ⟨s, count, hi, lo, check, rfl, -, -, hb⟩ := frame_eq_some h
  have hpos : 9 + k * 2 = 2 * (4 + k) + 1 := by omega
  rw [hpos, hexField_bytes hb (show 4 + k + j ≤ f.data.length + 5 by omega) hj]
  have hdrop : (count :: hi :: lo :: f.type :: (f.data ++ [check])).drop (4 + k) =
      f.data.drop k ++ [check] := by
    rw [← List.drop_drop]
    show (f.data ++ [check]).drop k = _
    exact List.drop_append_of_le_length (by omega)
  rw [hdrop, List.take_append_of_le_length (by rw [List.length_drop]; omega)]

/-- A field of one byte of the data, of two and of four. -/
theorem hexField_one (hk : k < f.data.length) :
    hexField line (9 + k * 2) 2 = .ok (f.data[k].toNat : ℤ) := by
  have hd := hexField_data h (show k + 1 ≤ f.data.length from hk) Nat.one_pos
  rw [List.drop_eq_getElem_cons hk] at hd
  exact hd.trans (congrArg (fun v : ℕ => Except.ok (v : ℤ)) (Nat.zero_add _))

theorem hexField_two {a b : BitVec 8} (hb : f.data.drop k = a :: b :: bs) :
    hexField line (9 + k * 2) 4 = .ok ((a ++ b).toNat : ℤ) := by
  have hlen := congrArg List.length hb
  rw [List.length_drop, List.length_cons, List.length_cons] at hlen
  have hd := hexField_data h (show k + 2 ≤ f.data.length by omega) Nat.two_pos
  rw [hb] at hd
  rw [← value_two]
  exact hd

theorem hexField_four {a b c d : BitVec 8} (hb : f.data = [a, b, c, d]) :
    hexField line 9 8 = .ok ((a ++ b ++ c ++ d).toNat : ℤ) := by
  have hd := hexField_data h (show 0 + 4 ≤ f.data.length by rw [hb]; exact le_rfl)
    (show 0 < 4 by decide)
  rw [hb] at hd
  rw [← value_four]
  exact hd

end Frame

/-! ## Where the bytes go -/

/-- Where the format and the code stand after some records. -/
structure Progress where
  ended : Bool
  base : ℕ
  extendedAddress : BitVec 32
  memoryOffset : BitVec 32

namespace Progress

def start : Progress := ⟨false, 0, 0, 0⟩

/-- Each type sets the variables of its own branch; the end of the file none. -/
def next (p : Progress) (r : Record) : Progress :=
  let p := { p with base := r.base p.base }
  match r with
  | .data .. | .startSegment .. | .startLinear _ => p
  | .endOfFile => { p with ended := true }
  | .segment v => { p with extendedAddress := BitVec.ofNat 32 (v.toNat * 16) }
  | .linear v =>
    { p with memoryOffset := BitVec.ofNat 32 (v.toNat * 2 ^ 16), extendedAddress := 0 }

/-- The address that the code counts the bytes of a record from. -/
def codeAddress (p : Progress) (address : BitVec 16) : BitVec 32 :=
  BitVec.ofNat 32 address.toNat + (p.extendedAddress + p.memoryOffset)

/-- The bytes of a record with the address that the format gives them before the end of the file,
and the one at which the code stores them. -/
def moves (p : Progress) : Record → List (Move ℕ (BitVec 8))
  | .data address bs => bs.zipIdx.map fun x =>
    ⟨if p.ended then none else some (p.base + address.toNat + x.2),
      recordIndex (p.codeAddress address) x.2, x.1⟩
  | _ => []

end Progress

/-- The bytes of all the records. -/
def moves (p : Progress) : List Record → List (Move ℕ (BitVec 8))
  | [] => []
  | r :: rs => p.moves r ++ moves (p.next r) rs

theorem Progress.moves_intended (p : Progress) (r : Record) :
    (p.moves r).filterMap (fun x => x.intended.map fun a => (a, x.value)) =
      if p.ended then [] else r.addressed p.base := by
  cases r with
  | data address bs =>
    rw [moves, List.filterMap_map]
    split
    next => simp
    next =>
      rw [Record.addressed, ← List.filterMap_eq_map]
      simp
  | _ => split <;> rfl

/-- The format gives the bytes before the end of the file their addresses. -/
theorem moves_intended (rs : List Record) (p : Progress) :
    (moves p rs).filterMap (fun x => x.intended.map fun a => (a, x.value)) =
      if p.ended then [] else IntelHex.addressed p.base (beforeEnd rs) := by
  induction rs generalizing p with
  | nil => split <;> rfl
  | cons r rs ih =>
    rw [moves, List.filterMap_append, p.moves_intended, ih]
    cases hp : p.ended with
    | true => cases r <;> simp [Progress.next, hp]
    | false => cases r <;> simp [Progress.next, hp, beforeEnd, IntelHex.addressed, Record.base,
        Record.addressed]

/-! ## What the code does with a record -/

/-- The progress has the variables of the code. -/
structure Progress.Matches (p : Progress) (st : HexLoad) : Prop where
  extendedAddress : st.extendedAddress = p.extendedAddress
  memoryOffset : st.memoryOffset = p.memoryOffset

/-- The state after a record whose bytes fit. -/
def HexLoad.after (st : HexLoad) (p : Progress) (r : Record) : HexLoad where
  mem := storedAll st.mem (p.moves r)
  programCounter := r.entry.getD st.programCounter
  extendedAddress := (p.next r).extendedAddress
  memoryOffset := (p.next r).memoryOffset

/-- The bytes below `n` of a data record. -/
theorem storeBytes_record {address : BitVec 32} {mem : ℕ → BitVec 8}
    (h : ∀ i (hi : i < bs.length), hexField line (9 + i * 2) 2 = .ok (bs[i].toNat : ℤ))
    (hn : n ≤ bs.length) (hfit : ∀ i < n, recordIndex address i < SIZE) :
    storeBytes line address mem n = .ok (storeAll mem
      ((bs.take n).zipIdx.map fun x => (recordIndex address x.2, x.1))) := by
  induction n with
  | zero => rfl
  | succ n ih =>
    have hlt : n < bs.length := hn
    have hlen : (bs.take n).length = n := List.length_take_of_le hlt.le
    have ih := ih hlt.le fun i hi => hfit i (Nat.lt_succ_of_lt hi)
    rw [storeBytes, ih]
    show storeByte line address _ n = _
    rw [storeByte, h n hlt]
    show (if recordIndex address n < SIZE then _ else _) = _
    rw [if_pos (hfit n (Nat.lt_succ_self n)), List.take_succ_eq_append_getElem hlt,
      List.zipIdx_append, List.map_append, hlen, Nat.zero_add, List.zipIdx_singleton,
      List.map_singleton, storeAll_concat]
    refine congrArg Except.ok (funext fun a => ?_)
    rw [Function.update_apply, BitVec.ofInt_natCast, BitVec.ofNat_toNat, BitVec.setWidth_eq]

variable {p : Progress}

theorem Progress.Matches.codeAddress (hp : p.Matches st) (address : BitVec 16) :
    BitVec.ofInt 32 (address.toNat : ℤ) + st.base = p.codeAddress address := by
  rw [HexLoad.base, hp.extendedAddress, hp.memoryOffset, BitVec.ofInt_natCast]
  rfl

theorem recordIndex_lt {address : BitVec 16}
    (hfit : ∀ x ∈ p.moves (.data address bs), x.stored < SIZE) (i : ℕ) (hi : i < bs.length) :
    recordIndex (p.codeAddress address) i < SIZE := by
  refine hfit _ (List.mem_map.mpr ⟨(bs[i], i), ?_, rfl⟩)
  exact List.mk_mem_zipIdx_iff_getElem?.mpr (List.getElem?_eq_getElem hi)

theorem ofInt_mul (n m : ℕ) : BitVec.ofInt 32 ((n : ℤ) * (m : ℤ)) = BitVec.ofNat 32 (n * m) := by
  rw [← Int.natCast_mul, BitVec.ofInt_natCast]

section Types

variable {f : Frame} {a b c d : BitVec 8} (hf : frame line = some f) (hp : p.Matches st)

include hf hp

theorem readLine_data (ht : f.type.toNat = 0)
    (hfit : ∀ x ∈ p.moves (.data f.address f.data), x.stored < SIZE) :
    readLine st line = .ok (st.after p (.data f.address f.data)) := by
  have htype := lineType_frame hf (by omega)
  have haddr := hp.codeAddress f.address
  have hbytes (i : ℕ) (hi : i < f.data.length) := hexField_one hf hi
  have hmem : storedAll st.mem (p.moves (.data f.address f.data)) = storeAll st.mem
      (f.data.zipIdx.map fun x => (recordIndex (p.codeAddress f.address) x.2, x.1)) :=
    congrArg (storeAll st.mem) List.map_map
  rw [readLine, htype, ht]
  show (hexField line 1 2 >>= _) = _
  rw [hexField_count hf]
  show (hexField line 3 4 >>= _) = _
  rw [hexField_address hf]
  show (storeBytes line _ st.mem f.data.length >>= _) = _
  rw [haddr, storeBytes_record hbytes le_rfl (recordIndex_lt hfit), List.take_length, ← hmem]
  obtain ⟨mem, pc, ext, off⟩ := st
  obtain ⟨rfl, rfl⟩ := hp
  rfl

theorem readLine_endOfFile (ht : f.type.toNat = 1) :
    readLine st line = .ok (st.after p .endOfFile) := by
  have htype := lineType_frame hf (by omega)
  obtain ⟨mem, pc, ext, off⟩ := st
  obtain ⟨rfl, rfl⟩ := hp
  rw [readLine, htype, ht]
  rfl

theorem readLine_segment (ht : f.type.toNat = 2) (hd : f.data = [a, b]) :
    readLine st line = .ok (st.after p (.segment (a ++ b))) := by
  have htype := lineType_frame hf (by omega)
  have hv : BitVec.ofInt 32 ((a ++ b).toNat * 16 : ℤ) = _ := ofInt_mul _ 16
  obtain ⟨mem, pc, ext, off⟩ := st
  obtain ⟨rfl, rfl⟩ := hp
  rw [readLine, htype, ht]
  show (hexField line (9 + 0 * 2) 4 >>= _) = _
  rw [hexField_two hf (List.drop_zero.trans hd)]
  show Except.ok (⟨mem, pc, BitVec.ofInt 32 _, _⟩ : HexLoad) = _
  rw [hv]
  rfl

theorem readLine_startSegment (ht : f.type.toNat = 3) (hd : f.data = [a, b, c, d]) :
    readLine st line = .ok (st.after p (.startSegment (a ++ b) (c ++ d))) := by
  have htype := lineType_frame hf (by omega)
  have hip : f.data.drop 2 = [c, d] := by
    rw [hd]
    rfl
  have hv : BitVec.ofInt 32 ((a ++ b).toNat * 16 : ℤ) = _ := ofInt_mul _ 16
  obtain ⟨mem, pc, ext, off⟩ := st
  obtain ⟨rfl, rfl⟩ := hp
  rw [readLine, htype, ht]
  show (hexField line (9 + 0 * 2) 4 >>= _) = _
  rw [hexField_two hf (List.drop_zero.trans hd)]
  show (hexField line (9 + 2 * 2) 4 >>= _) = _
  rw [hexField_two hf hip]
  show Except.ok (⟨mem, BitVec.ofInt 32 _ + BitVec.ofInt 32 _, _, _⟩ : HexLoad) = _
  rw [hv, BitVec.ofNat_mul, BitVec.ofInt_natCast, BitVec.ofNat_toNat, BitVec.ofNat_toNat,
    BitVec.add_comm]
  rfl

theorem readLine_linear (ht : f.type.toNat = 4) (hd : f.data = [a, b]) :
    readLine st line = .ok (st.after p (.linear (a ++ b))) := by
  have htype := lineType_frame hf (by omega)
  have hv : BitVec.ofInt 32 ((a ++ b).toNat * 2 ^ 16 : ℤ) = _ := ofInt_mul _ (2 ^ 16)
  obtain ⟨mem, pc, ext, off⟩ := st
  obtain ⟨rfl, rfl⟩ := hp
  rw [readLine, htype, ht]
  show (hexField line (9 + 0 * 2) 4 >>= _) = _
  rw [hexField_two hf (List.drop_zero.trans hd)]
  show Except.ok (⟨mem, pc, _, BitVec.ofInt 32 _⟩ : HexLoad) = _
  rw [hv]
  rfl

theorem readLine_startLinear (ht : f.type.toNat = 5) (hd : f.data = [a, b, c, d]) :
    readLine st line = .ok (st.after p (.startLinear (a ++ b ++ c ++ d))) := by
  have htype := lineType_frame hf (by omega)
  obtain ⟨mem, pc, ext, off⟩ := st
  obtain ⟨rfl, rfl⟩ := hp
  rw [readLine, htype, ht]
  show (hexField line 9 8 >>= _) = _
  rw [hexField_four hf hd]
  show Except.ok (⟨mem, BitVec.ofInt 32 _, _, _⟩ : HexLoad) = _
  rw [BitVec.ofInt_natCast, BitVec.ofNat_toNat, BitVec.setWidth_eq]
  rfl

end Types

/-- A record is read as the format has it, and stored where the variables put it. -/
theorem readLine_record (hr : record line = some r) (hp : p.Matches st)
    (hfit : ∀ x ∈ p.moves r, x.stored < SIZE) : readLine st line = .ok (st.after p r) := by
  obtain ⟨f, hf, hrec⟩ := Option.bind_eq_some_iff.mp hr
  unfold Frame.record at hrec
  split at hrec
  next ht =>
    cases hrec
    exact readLine_data hf hp ht hfit
  next ht hd =>
    cases hrec
    exact readLine_endOfFile hf hp ht
  next ht hd =>
    cases hrec
    exact readLine_segment hf hp ht hd
  next ht hd =>
    cases hrec
    exact readLine_startSegment hf hp ht hd
  next ht hd =>
    cases hrec
    exact readLine_linear hf hp ht hd
  next ht hd =>
    cases hrec
    exact readLine_startLinear hf hp ht hd
  next => cases hrec

/-- A record that is read fits. -/
theorem moves_fit (hr : record line = some r) (hp : p.Matches st) (hfit : Fits st.base line) :
    ∀ x ∈ p.moves r, x.stored < SIZE := by
  obtain ⟨f, hf, hrec⟩ := Option.bind_eq_some_iff.mp hr
  have haddr := hp.codeAddress f.address
  intro x hx
  unfold Frame.record at hrec
  split at hrec
  next h0 =>
    cases hrec
    have htype := lineType_frame hf (by omega)
    rw [h0] at htype
    obtain ⟨⟨b, i⟩, hi, rfl⟩ := List.mem_map.mp hx
    have hlt : i < f.data.length := List.snd_lt_of_mem_zipIdx hi
    have hbytes := hfit htype _ _ (hexField_count hf) (hexField_address hf)
    rw [haddr] at hbytes
    exact hbytes i hlt fun j hj => ⟨_, hexField_one hf (hj.trans_lt hlt)⟩
  all_goals
    cases hrec
    try cases hx

/-! ## What the code does with a file -/

theorem Progress.Matches.after (st : HexLoad) (p : Progress) (r : Record) :
    (p.next r).Matches (st.after p r) := ⟨rfl, rfl⟩

theorem entry_cons (r : Record) (rs : List Record) (pc : BitVec 32) :
    (entry (r :: rs)).getD pc = (entry rs).getD (r.entry.getD pc) := by
  unfold IntelHex.entry
  rw [List.reverse_cons, List.findSome?_append, List.findSome?_singleton]
  cases rs.reverse.findSome? Record.entry <;> rfl

theorem readLines_records {rs : List Record} {ls : List (List Char)}
    (hr : ls.map record = rs.map some) (hp : p.Matches st)
    (hfit : ∀ x ∈ moves p rs, x.stored < SIZE) :
    ∃ st', readLines st ls = .ok st' ∧ st'.mem = storedAll st.mem (moves p rs) ∧
      st'.programCounter = (entry rs).getD st.programCounter := by
  induction rs generalizing p st ls with
  | nil =>
    obtain rfl := List.map_eq_nil_iff.mp hr
    exact ⟨st, rfl, rfl, rfl⟩
  | cons r rs ih =>
    obtain ⟨line, ls, rfl, hline, hls⟩ := List.map_eq_cons_iff.mp hr
    have hx := readLine_record hline hp fun x hx => hfit x (List.mem_append_left _ hx)
    obtain ⟨st', hst, hmem, hpc⟩ := ih hls (Progress.Matches.after st p r) fun x hx =>
      hfit x (List.mem_append_right _ hx)
    refine ⟨st', ?_, ?_, ?_⟩
    · rw [readLines, hx]
      exact hst
    · rw [hmem, moves, storedAll_append]
      rfl
    · rw [hpc, entry_cons]
      rfl

theorem moves_fit_of_ok {rs : List Record} {ls : List (List Char)} {st' : HexLoad}
    (hr : ls.map record = rs.map some) (hp : p.Matches st) (h : readLines st ls = .ok st') :
    ∀ x ∈ moves p rs, x.stored < SIZE := by
  induction rs generalizing p st ls with
  | nil => exact nofun
  | cons r rs ih =>
    obtain ⟨line, ls, rfl, hline, hls⟩ := List.map_eq_cons_iff.mp hr
    have hout := readLine_outcome st line
    rw [readLines] at h
    cases hx : readLine st line with
    | error e =>
      rw [hx] at h
      cases h
    | ok st₁ =>
      rw [hx] at h hout
      have hfit := moves_fit hline hp hout.1
      cases hx.symm.trans (readLine_record hline hp hfit)
      intro x hmem
      rcases List.mem_append.mp hmem with hmem | hmem
      · exact hfit x hmem
      · exact ih hls (Progress.Matches.after st p r) h x hmem

/-- From the zeroed array and program counter of the constructor, each byte is the one the format
describes and the program counter the last entry point, if there is one. -/
def LoadsIntelHex (text : List Char) (rs : List Record) : Prop :=
  ∃ m programCounter,
    readHexFile ⟨fun _ => 0, false⟩ 0 (some text) = .ok (m, programCounter) ∧
    (∀ a < SIZE, m.mem a = image rs a) ∧ programCounter = (entry rs).getD 0

theorem image_eq (rs : List Record) :
    image rs = intendedAll (fun _ => 0) (moves .start rs) := by
  rw [intendedAll, moves_intended]
  rfl

/-- Outside the array neither has a byte. -/
theorem image_eq_iff {rs : List Record} (ha : ∀ x ∈ IntelHex.addressed 0 rs, x.1 < SIZE)
    (hfit : ∀ x ∈ moves .start rs, x.stored < SIZE) :
    (∀ a < SIZE, storedAll (fun _ => 0) (moves .start rs) a = image rs a) ↔
      NoneShows (fun _ => 0) (moves .start rs) := by
  rw [← intendedAll_eq_storedAll_iff, ← image_eq]
  constructor
  · intro h
    funext a
    by_cases hlt : a < SIZE
    · exact (h a hlt).symm
    · have himage : image rs a = 0 := by
        refine storeAll_of_not_mem fun x hx hxa => hlt ?_
        rw [← hxa]
        exact ha x (addressed_beforeEnd hx)
      have hstored : storedAll (fun _ => 0) (moves .start rs) a = 0#8 := by
        refine storeAll_of_not_mem fun x hx hxa => hlt ?_
        obtain ⟨y, hy, rfl⟩ := List.mem_map.mp hx
        rw [← hxa]
        exact hfit y hy
      rw [himage, hstored]
      rfl
  · intro h a _
    rw [h]

/-- A file of records is loaded as the format says exactly when every byte is stored inside the
array and no byte that is stored elsewhere, or behind the end of the file, shows. -/
theorem loadsIntelHex_iff {text : List Char} {rs : List Record}
    (hr : (lines text).map record = rs.map some)
    (ha : ∀ x ∈ IntelHex.addressed 0 rs, x.1 < SIZE) :
    LoadsIntelHex text rs ↔ (∀ x ∈ moves .start rs, x.stored < SIZE) ∧
      NoneShows (fun _ => 0) (moves .start rs) := by
  have hmatch : Progress.Matches .start ⟨fun _ => 0, 0, 0, 0⟩ := ⟨rfl, rfl⟩
  constructor
  · rintro ⟨m, pc, h, hmem, -⟩
    cases hx : readLines ⟨fun _ => 0, 0, 0, 0⟩ (lines text) with
    | error e =>
      rw [readHexFile, hx] at h
      cases h
    | ok st =>
      have hfit := moves_fit_of_ok hr hmatch hx
      obtain ⟨st', hst', hmem', -⟩ := readLines_records hr hmatch hfit
      cases hx.symm.trans hst'
      rw [readHexFile, hx] at h
      cases h
      refine ⟨hfit, (image_eq_iff ha hfit).mp fun a hlt => ?_⟩
      rw [← hmem', ← hmem a hlt]
  · rintro ⟨hfit, hnone⟩
    obtain ⟨st, hst, hmem, hpc⟩ := readLines_records hr hmatch hfit
    refine ⟨⟨st.mem, st.memoryOffset = 0⟩, st.programCounter, ?_, fun a hlt => ?_, hpc⟩
    · rw [readHexFile, hst]
      rfl
    · rw [← (image_eq_iff ha hfit).mpr hnone a hlt, ← hmem]

/-- Data in front of a linear base address and behind it. -/
theorem loadsIntelHex_bytes :
    LoadsIntelHex ":010000003CC3\n:020000040001F9\n:0200000055AAFF\n:00000001FF\n".toList
      [.data 0 [0x3C], .linear 1, .data 0 [0x55, 0xAA], .endOfFile] := by
  refine (loadsIntelHex_iff rfl (by decide)).mpr ⟨by decide, noneShows_of_not_misplaced ?_⟩
  decide

/-- A segment record behind a linear one, and a byte behind the end of the file. -/
theorem not_loadsIntelHex_mixed :
    let mixed := ":020000040001F9\n:020000020000FC\n:0100000055AA\n:00000001FF\n".toList
    let trailing := ":00000001FF\n:0100000055AA\n".toList
    ((lines mixed).map record = [.linear 1, .segment 0, .data 0 [0x55], .endOfFile].map some ∧
      ¬LoadsIntelHex mixed [.linear 1, .segment 0, .data 0 [0x55], .endOfFile]) ∧
    (lines trailing).map record = [.endOfFile, .data 0 [0x55]].map some ∧
      ¬LoadsIntelHex trailing [.endOfFile, .data 0 [0x55]] := by
  refine ⟨⟨rfl, ?_⟩, rfl, ?_⟩
  · rintro ⟨m, pc, h, hmem, -⟩
    cases h
    exact absurd (hmem 0 (by decide)) (by decide)
  · rintro ⟨m, pc, h, hmem, -⟩
    cases h
    exact absurd (hmem 0 (by decide)) (by decide)

end RiscvTlm.Memory
