import RiscvTlm.Lib.HexText
import RiscvTlm.Lib.WriteLog

/-!
# Intel HEX

A line is a colon and, in hexadecimal digits, the byte count, the address, the type, as many data
bytes as the count says and a checksum that makes the sum of all the bytes a multiple of 256. What
follows the checksum does not count. Byte `i` of a data record is addressed to the address of the
record plus `i`, above the base that the latest segment or linear record sets. The first end-of-file
record ends the image.
-/

namespace IntelHex

open HexText WriteLog

/-- The parts of a line. -/
structure Frame where
  address : BitVec 16
  type : BitVec 8
  data : List (BitVec 8)

/-- The frame of a complete line. -/
def frame : List Char → Option Frame
  | ':' :: s =>
    match bytes 1 s with
    | some [count] =>
      match bytes (count.toNat + 5) s with
      | some (count' :: hi :: lo :: type :: rest) =>
        if (count' :: hi :: lo :: type :: rest).foldl (· + ·) 0 = 0 then
          some ⟨hi ++ lo, type, rest.dropLast⟩
        else none
      | _ => none
    | _ => none
  | _ => none

inductive Record
  | data (address : BitVec 16) (bytes : List (BitVec 8))
  | endOfFile
  | segment (base : BitVec 16)
  | startSegment (cs ip : BitVec 16)
  | linear (upper : BitVec 16)
  | startLinear (eip : BitVec 32)

/-- The types with the data that each has. -/
def Frame.record (f : Frame) : Option Record :=
  match f.type.toNat, f.data with
  | 0, bs => some (.data f.address bs)
  | 1, [] => some .endOfFile
  | 2, [h, l] => some (.segment (h ++ l))
  | 3, [a, b, c, d] => some (.startSegment (a ++ b) (c ++ d))
  | 4, [h, l] => some (.linear (h ++ l))
  | 5, [a, b, c, d] => some (.startLinear (a ++ b ++ c ++ d))
  | _, _ => none

def record (line : List Char) : Option Record := (frame line).bind Frame.record

namespace Record

/-- The base after a record. -/
def base (b : ℕ) : Record → ℕ
  | .segment v => v.toNat * 16
  | .linear v => v.toNat * 2 ^ 16
  | _ => b

/-- The data bytes of a record with their addresses. -/
def addressed (b : ℕ) : Record → List (ℕ × BitVec 8)
  | .data address bs => bs.zipIdx.map fun x => (b + address.toNat + x.2, x.1)
  | _ => []

/-- The entry point that a record gives. -/
def entry : Record → Option (BitVec 32)
  | .startSegment cs ip => some (cs.setWidth 32 * 16 + ip.setWidth 32)
  | .startLinear eip => some eip
  | _ => none

end Record

/-- The data bytes of all the records. -/
def addressed (b : ℕ) : List Record → List (ℕ × BitVec 8)
  | [] => []
  | r :: rs => r.addressed b ++ addressed (r.base b) rs

/-- The records in front of the first end of file. -/
def beforeEnd : List Record → List Record
  | [] => []
  | .endOfFile :: _ => []
  | r :: rs => r :: beforeEnd rs

/-- Each byte is the last one addressed to it, and zero if there is none. -/
def image (rs : List Record) : ℕ → BitVec 8 := storeAll (fun _ => 0) (addressed 0 (beforeEnd rs))

/-- The last entry point. -/
def entry (rs : List Record) : Option (BitVec 32) := rs.reverse.findSome? Record.entry

theorem addressed_beforeEnd {rs : List Record} {b : ℕ} {x : ℕ × BitVec 8}
    (h : x ∈ addressed b (beforeEnd rs)) : x ∈ addressed b rs := by
  induction rs generalizing b with
  | nil => exact h
  | cons r rs ih =>
    cases r with
    | endOfFile => cases h
    | _ => exact (List.mem_append.mp h).elim (List.mem_append_left _) fun h =>
        List.mem_append_right _ (ih h)

/-- The characters of a line behind its frame. -/
theorem frame_eq_some {line : List Char} {f : Frame} (h : frame line = some f) :
    ∃ s count hi lo check, line = ':' :: s ∧ count.toNat = f.data.length ∧ f.address = hi ++ lo ∧
      bytes (f.data.length + 5) s = some (count :: hi :: lo :: f.type :: (f.data ++ [check])) := by
  unfold frame at h
  split at h
  next s =>
    split at h
    next count hcount =>
      split at h
      next count' hi lo type rest hrest =>
        split at h
        next hsum =>
          cases h
          have hlen := (bytes_length hrest).1
          simp only [List.length_cons] at hlen
          have hne : rest ≠ [] := by
            rintro rfl
            simp only [List.length_nil] at hlen
            omega
          have hcount' : count' = count := by
            have h1 := bytes_take_drop hcount (show 0 + 1 ≤ 1 by omega)
            have h2 := bytes_take_drop hrest (show 0 + 1 ≤ count.toNat + 5 by omega)
            exact (List.cons.inj (Option.some.inj (h2.symm.trans h1))).1
          have hlast : rest.dropLast.length = count.toNat := by
            rw [List.length_dropLast]
            omega
          refine ⟨s, count, hi, lo, rest.getLast hne, rfl, hlast.symm, rfl, ?_⟩
          rw [List.dropLast_concat_getLast hne, hlast, ← hcount']
          rw [← hcount'] at hrest
          exact hrest
        next => cases h
      next => cases h
    next => cases h
  next => cases h

end IntelHex
