import RiscvTlm.Bus
import RiscvTlm.Lib.CString

/-!
# Hex files

`readHexFile` loads the memory from the text of an Intel hex file. A field is the number in some
characters of a line; the functions that read it throw when the line is too short or there is no
digit. A data record stores its bytes one after the other at the record's address plus the segment
and the offset that earlier records set, a sum of 32 bits that nothing compares with the size of the
array.
-/

namespace RiscvTlm

open CString

/-- Why `readHexFile` does not return. -/
inductive HexError
  | scReportError (msgType msg : String)
  | invalidArgument
  | outOfRange
  | outOfBounds (index : ℕ)
  deriving DecidableEq, Repr

namespace Memory

/-- The number in `count` characters from `pos` on. At most eight digits fit, so that neither `stoi`
nor `stol` overflows. -/
def hexField (line : List Char) (pos count : ℕ) : Except HexError ℤ :=
  match substr line pos count with
  | none => .error .outOfRange
  | some s =>
    match strtol s with
    | none => .error .invalidArgument
    | some r => .ok r.1

/-- The local variables of `readHexFile` with the memory and the program counter. -/
structure HexLoad where
  mem : ℕ → BitVec 8
  programCounter : BitVec 32
  extendedAddress : BitVec 32
  memoryOffset : BitVec 32

/-- The index of the byte `i` of a record. -/
def recordIndex (address : BitVec 32) (i : ℕ) : ℕ := (address + BitVec.ofNat 32 i).toNat

/-- Stores the byte `i` of a data record; its value is read before the array is indexed. -/
def storeByte (line : List Char) (address : BitVec 32) (mem : ℕ → BitVec 8) (i : ℕ) :
    Except HexError (ℕ → BitVec 8) := do
  let v ← hexField line (9 + i * 2) 2
  let index := recordIndex address i
  if index < SIZE then
    return fun a => if a = index then BitVec.ofInt 8 v else mem a
  else throw (.outOfBounds index)

/-- The bytes below `n`. -/
def storeBytes (line : List Char) (address : BitVec 32) (mem : ℕ → BitVec 8) :
    ℕ → Except HexError (ℕ → BitVec 8)
  | 0 => .ok mem
  | n + 1 => do storeByte line address (← storeBytes line address mem n) n

/-- The sum that the address of a data record is relative to. -/
def HexLoad.base (st : HexLoad) : BitVec 32 := st.extendedAddress + st.memoryOffset

inductive RecordType
  | data
  | segment
  | startSegment
  | offset
  | start
  | other
  deriving DecidableEq, Repr

/-- The type of a line; one that does not start with a colon is passed over like a record of another
type. -/
def lineType (line : List Char) : Except HexError RecordType :=
  if line.head? = some ':' then
    match substr line 7 2 with
    | none => .error .outOfRange
    | some ['0', '0'] => .ok .data
    | some ['0', '2'] => .ok .segment
    | some ['0', '3'] => .ok .startSegment
    | some ['0', '4'] => .ok .offset
    | some ['0', '5'] => .ok .start
    | some _ => .ok .other
  else .ok .other

/-- One turn of the loop over the lines. -/
def readLine (st : HexLoad) (line : List Char) : Except HexError HexLoad := do
  match ← lineType line with
  | .data =>
    let byteCount ← hexField line 1 2
    let address ← hexField line 3 4
    -- a negative count stores nothing
    let mem ← storeBytes line (BitVec.ofInt 32 address + st.base) st.mem byteCount.toNat
    return { st with mem }
  | .segment =>
    let v ← hexField line 9 4
    return { st with extendedAddress := BitVec.ofInt 32 (v * 16) }
  | .startSegment =>
    let v ← hexField line 9 4
    let codeSegment := BitVec.ofInt 32 (v * 16)
    let pc ← hexField line 13 4
    return { st with programCounter := BitVec.ofInt 32 pc + codeSegment }
  | .offset =>
    let v ← hexField line 9 4
    return { st with memoryOffset := BitVec.ofInt 32 (v * 2 ^ 16), extendedAddress := 0 }
  | .start =>
    let pc ← hexField line 9 8
    return { st with programCounter := BitVec.ofInt 32 pc }
  | .other => return st

def readLines (st : HexLoad) : List (List Char) → Except HexError HexLoad
  | [] => .ok st
  | line :: rest => do readLines (← readLine st line) rest

/-- The memory and the program counter after the file is read; none is a file that does not open. -/
def readHexFile (m : Memory) (programCounter : BitVec 32) :
    Option (List Char) → Except HexError (Memory × BitVec 32)
  | none => .error (.scReportError "Memory" "Open file error")
  | some text => do
    let st ← readLines ⟨m.mem, programCounter, 0, 0⟩ (lines text)
    return (⟨st.mem, st.memoryOffset = 0⟩, st.programCounter)

end Memory

end RiscvTlm
