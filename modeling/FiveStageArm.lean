import FiveStageArm.Text
import FiveStageArm.Isa.Fields
import FiveStageArm.SingleCycle
import FiveStageArm.Pipeline.Display
import FiveStageArm.Shell.CommandLine
import FiveStageArm.Main
import FiveStageArm.Proofs.Alignment
import FiveStageArm.Proofs.Lanes
import FiveStageArm.Proofs.Bus.Frame
import FiveStageArm.Proofs.Bus.Bytes
import FiveStageArm.Proofs.Bus.Contents
import FiveStageArm.Proofs.Bus.Wired
import FiveStageArm.Proofs.Bus.Build
import FiveStageArm.Proofs.Bus.Mapping
import FiveStageArm.Proofs.Bus.Placement
import FiveStageArm.Proofs.Bus.Store
import FiveStageArm.Proofs.Isa.Sources
import FiveStageArm.Proofs.Registers
import FiveStageArm.Proofs.RunControl
import FiveStageArm.Proofs.SingleCycle
import FiveStageArm.Proofs.Pipeline.Cycle
import FiveStageArm.Proofs.Pipeline.Operands
import FiveStageArm.Proofs.Pipeline.Simulation
import FiveStageArm.Proofs.Pipeline.Lockstep
import FiveStageArm.Proofs.Pipeline.Agreement
import FiveStageArm.Proofs.Pipeline.Redirect
import FiveStageArm.Proofs.Pipeline.Toggling
import FiveStageArm.Proofs.Pipeline.Timing
import FiveStageArm.Proofs.Pipeline.Calls
import FiveStageArm.Proofs.Pipeline.Slots
import FiveStageArm.Proofs.Pipeline.Progress
import FiveStageArm.Proofs.Pipeline.Diagram
import FiveStageArm.Pipeline.Fields
import FiveStageArm.Proofs.Isa.Control
import FiveStageArm.Proofs.Pipeline.Records
import FiveStageArm.Proofs.Pipeline.Structure
import FiveStageArm.Proofs.Shell.Actions
import FiveStageArm.Proofs.Shell.Reset
import FiveStageArm.Proofs.Shell.Looking
import FiveStageArm.Proofs.Bits
import FiveStageArm.Proofs.Isa.ShiftSteps
import FiveStageArm.Proofs.Isa.CarryChain
import FiveStageArm.Proofs.Skipping
import FiveStageArm.Proofs.Isa.Encoding
import FiveStageArm.Proofs.Isa.Ranges
import FiveStageArm.Proofs.Isa.Comparison
import FiveStageArm.Proofs.Bus.Loaders
import FiveStageArm.Proofs.Bus.Line
import FiveStageArm.Proofs.Text.Numeral
import FiveStageArm.Proofs.Text.Spelling
import FiveStageArm.Proofs.Isa.Alike
import FiveStageArm.Proofs.Isa.Assembly
import FiveStageArm.Proofs.Disassembly
import FiveStageArm.Proofs.Shell.Numbers
import FiveStageArm.Proofs.Bus.Console
import FiveStageArm.Proofs.Shell.Stepping
import FiveStageArm.Proofs.Pipeline.ClockEdge
import FiveStageArm.Proofs.Isa.Listing
import FiveStageArm.Proofs.Text.Lines
import FiveStageArm.Proofs.Pipeline.StallReport
import FiveStageArm.Proofs.Bus.ByteInWord
import FiveStageArm.Proofs.Shell.MemoryDump
