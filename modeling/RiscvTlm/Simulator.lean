import RiscvTlm.Cpu
import RiscvTlm.Debug
import RiscvTlm.HexFile
import Mathlib.Data.List.Defs

/-!
# The simulator

The constructor of `Simulator`, which loads the memory and starts a CPU, and `MemoryDump`, which its
destructor calls: the range from the command line or from two registers, the loop over it and the
file it writes. The variable behind the data pointer and the transaction are the same in all turns.
The console output is left out.
-/

namespace RiscvTlm

variable {T : CpuType}

/-! ## Construction -/

/-- The addresses of the options `-B` and `-E`, after `strtoul`. -/
structure DumpOptions where
  B : Option (BitVec 32)
  E : Option (BitVec 32)
  deriving DecidableEq, Repr

namespace DumpOptions

def dumpAddrSt (options : DumpOptions) : BitVec 32 := options.B.getD 0

def dumpAddrEnd (options : DumpOptions) : BitVec 32 := options.E.getD 0

end DumpOptions

/-- `t0`. -/
def getStartDumpAddress (s : System T) : BitVec 64 := (s.regs.getValue 5).setWidth 64

/-- `t1`. -/
def getEndDumpAddress (s : System T) : BitVec 64 := (s.regs.getValue 6).setWidth 64

/-- The start of the dump: zero stands for an option that is not given. -/
def dumpStart (s : System T) (options : DumpOptions) : BitVec 32 :=
  if options.dumpAddrSt = 0 then (getStartDumpAddress s).setWidth 32 else options.dumpAddrSt

/-- The end of the dump. -/
def dumpEnd (s : System T) (options : DumpOptions) : BitVec 32 :=
  if options.dumpAddrEnd = 0 then (getEndDumpAddress s).setWidth 32 else options.dumpAddrEnd

/-! ## The file -/

/-- A line of the file: the word in it, and the address that the loop had reached. -/
structure DumpLine where
  address : BitVec 32
  word : BitVec 32
  deriving DecidableEq, Repr

/-- A word as eight digits. -/
def DumpLine.text (l : DumpLine) : List Char := Debug.hexWidth 8 l.word.toNat ++ ['\n']

structure SignatureFile where
  localName : List Char
  lines : List DumpLine
  deriving DecidableEq, Repr

def SignatureFile.text (file : SignatureFile) : List Char := file.lines.flatMap DumpLine.text

/-- The name of the program file without its directories and from the first dot on. -/
def signatureName (filename : List Char) : List Char :=
  let baseFilename := (filename.reverse.takeWhile fun c => c ≠ '/' ∧ c ≠ '\\').reverse
  let baseName := baseFilename.takeWhile fun c => c ≠ '.'
  baseName ++ ".signature.output".toList

example : signatureName "tests/add-01.elf.hex".toList = "add-01.signature.output".toList := by
  decide

/-! ## The loop -/

/-- The transaction before the loop, which sets its address in each turn. -/
def dumpTrans (data : BitVec 32) : Payload where
  command := .read
  address := 0
  data := data
  dataLength := 4
  streamingWidth := 4
  byteEnable := false
  dmiAllowed := false
  responseStatus := .incomplete

/-- The loop from the address `i` on, if it ends within `fuel` turns. The response status is not
looked at. -/
def dumpLoop (stop : BitVec 32) (memory : Memory) (trans : Payload) (i : BitVec 32) :
    ℕ → Except Fault (Option (List DumpLine))
  | 0 => .ok none
  | fuel + 1 =>
    if i < stop then do
      let r ← memory.bTransport { trans with address := i.setWidth 64 }
      match ← dumpLoop stop r.1 r.2 (i + 4) fuel with
      | some lines => return some (⟨i, r.2.data⟩ :: lines)
      | none => return none
    else return some []

/-- `MemoryDump`, with what the variable for the data holds at first. -/
def memoryDump (fuel : ℕ) (s : System T) (options : DumpOptions) (filename : List Char)
    (data : BitVec 32) : Except Fault (Option SignatureFile) := do
  let trans := dumpTrans data
  match ← dumpLoop (dumpEnd s options) s.bus.memory trans (dumpStart s options) fuel with
  | some lines => return some ⟨signatureName filename, lines⟩
  | none => return none

end RiscvTlm
