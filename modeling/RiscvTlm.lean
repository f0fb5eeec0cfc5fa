import RiscvTlm.DecodeEncode
import RiscvTlm.Dispatch
import RiscvTlm.TrapReturn
import RiscvTlm.BusErrors
import RiscvTlm.Coherence
import RiscvTlm.Atomics
import RiscvTlm.Reservations
import RiscvTlm.CsrInstructions
import RiscvTlm.CsrStorage
import RiscvTlm.InterruptCause
import RiscvTlm.UpperHalfword
import RiscvTlm.StepFrame
import RiscvTlm.ExpansionMemory
import RiscvTlm.TimerReads
import RiscvTlm.Superseded
import RiscvTlm.FetchPaths
import RiscvTlm.EvenPC
import RiscvTlm.CompressedGrammar
import RiscvTlm.PacketStream
import RiscvTlm.PacketDelivery
import RiscvTlm.DebugStepping
import RiscvTlm.MemoryBounds
import RiscvTlm.MulDiv
import RiscvTlm.TimerBytes
import RiscvTlm.ShiftCounts
import RiscvTlm.CorruptLines
import RiscvTlm.DebugRegisters
import RiscvTlm.DebugMemory
import RiscvTlm.FrameRoundTrip
import RiscvTlm.Breakpoints
import RiscvTlm.Counters
import RiscvTlm.AccessHistory
import RiscvTlm.SignatureDump
import RiscvTlm.Preemption
import RiscvTlm.DebugSession
import RiscvTlm.SocRuns
import RiscvTlm.SocTiming
import RiscvTlm.Progress
