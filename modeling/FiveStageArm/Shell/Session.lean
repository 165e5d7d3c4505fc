/-
  FiveStageArm.Shell.Session — a debugging session: one machine with both cores on it, the
  image last loaded, and the mode that says which core runs. Every command takes a session
  to a session and the text it prints; what the program transmits meanwhile is part of
  that text, at the point where it happens.

  A load keeps the image, so that `reset` can bring the machine back to where the load
  left it: board and cores reset, the image written again, both cores at its origin.
-/

import FiveStageArm.SingleCycle
import FiveStageArm.Pipeline.Display
import FiveStageArm.Shell.Command

namespace FiveStageArm.Shell

structure Image where
  origin : Address
  bytes : List Byte
  deriving DecidableEq

structure Session where
  machine : Machine
  single : SingleCycle
  pipeline : Pipeline
  /-- Absent until a load succeeds. -/
  image : Option Image
  mode : Mode

/-- The files a load may name. -/
abbrev Files := String → Option (List Byte)

inductive LoadError where
  | unreadable (file : String)
  | empty (file : String)
  deriving DecidableEq

def LoadError.message : LoadError → String
  | unreadable file => "Cannot open file: " ++ file
  | empty file => "Empty image: " ++ file

namespace Session

/-- The UART echoes to the session's own output. -/
def fresh : Session :=
  { machine := { Machine.fresh with board := Board.empty.setUart { Uart.idle with echo := true } }
    single := .fresh, pipeline := .fresh, image := none, mode := .pipeline }

def board (s : Session) : Board := s.machine.board

def registers (s : Session) : Registers := s.machine.registers

def setBoard (s : Session) (b : Board) : Session := { s with machine := { s.machine with board := b } }

/-- The program counter of the core that runs. -/
def pc (s : Session) : Address :=
  match s.mode with
  | .singleCycle => s.single.pc
  | .pipeline => s.pipeline.pc

def halted (s : Session) : Bool :=
  match s.mode with
  | .singleCycle => s.single.halted
  | .pipeline => s.pipeline.halted

/-- Takes what has been transmitted off the console. -/
def drain (s : Session) : String × Session :=
  (Text.ofBytes s.board.console.reverse, s.setBoard { s.board with console := [] })

/-! ## Loading -/

def setPcs (s : Session) (a : Address) : Session :=
  { s with single := s.single.setPc a, pipeline := s.pipeline.setPc a }

/-- The machine as loading `image` leaves it. -/
def restore (s : Session) (image : Image) : Session :=
  let m := { s.machine with board := s.machine.board.reset }
  let (single, m) := s.single.reset m
  let (pipeline, m) := s.pipeline.reset m
  let m := { m with board := m.board.loadBytes image.origin image.bytes }
  { s with machine := m, single, pipeline, image := some image }.setPcs image.origin

/-- Loads words at the word that `origin` falls in. -/
def loadWords (s : Session) (words : List Word) (origin : Address) : String × Session :=
  (s.restore ⟨align origin, words.flatMap wordBytes⟩).drain

def load (s : Session) (files : Files) (file : String) (origin : Address) : Except LoadError (String × Session) :=
  match files file with
  | none => .error (.unreadable file)
  | some [] => .error (.empty file)
  | some bytes =>
    let (echoed, s) := (s.restore ⟨align origin, bytes⟩).drain
    .ok (echoed ++ Text.line ("Loaded " ++ Text.decimal bytes.length ++ " bytes at " ++ Text.hex (align origin)), s)

/-! ## Running -/

/-- One step of the core that runs. -/
def advance (s : Session) : Session :=
  match s.mode with
  | .singleCycle =>
    let (single, machine) := SingleCycle.step (s.single, s.machine)
    { s with single, machine }
  | .pipeline =>
    let (pipeline, machine) := Pipeline.cycle (s.pipeline, s.machine)
    { s with pipeline, machine }

def stops (s : Session) : Bool :=
  match s.mode with
  | .singleCycle => SingleCycle.stops (s.single, s.machine)
  | .pipeline => Pipeline.stops (s.pipeline, s.machine)

/-- How many steps were taken, and the session after them. -/
def runFor (s : Session) (limit : Nat) : Nat × Session :=
  match s.mode with
  | .singleCycle =>
    let (taken, single, machine) := SingleCycle.run limit (s.single, s.machine)
    (taken, { s with single, machine })
  | .pipeline =>
    let (taken, pipeline, machine) := Pipeline.run limit (s.pipeline, s.machine)
    (taken, { s with pipeline, machine })

def instructionText (s : Session) (a : Address) : String :=
  Text.line (Text.hex a ++ ": " ++ disassemble (s.board.peek a) a)

def run (s : Session) (limit : Nat) : String × Session :=
  let (taken, s) := s.runFor limit
  let (echoed, s) := s.drain
  let reason :=
    if s.halted then "Halted at PC=" ++ Text.hex s.pc ++ " after " ++ Text.decimal taken ++ " cycles"
    else if limit ≤ taken then "Cycle limit reached (" ++ Text.decimal taken ++ ")"
    else "Breakpoint hit at " ++ Text.hex s.pc
  (echoed ++ Text.line reason ++ s.instructionText s.pc, s)

/-- What a single step shows: the instruction retired last, or the stages. -/
def progressText (s : Session) : String :=
  match s.mode with
  | .singleCycle => s.instructionText (s.single.last.elim 0 (·.pc))
  | .pipeline => s.pipeline.stateText s.registers.flags

/-- Here `shown` is what the steps so far have printed. -/
def steps (s : Session) (shown : String) : Nat → String × Session
  | 0 => (shown, s)
  | count + 1 =>
    let (echoed, s) := s.advance.drain
    let shown := shown ++ echoed ++ s.progressText
    if s.stops then (shown ++ (if s.halted then "Program halted\n" else "Breakpoint hit\n"), s)
    else s.steps shown count

/-- A command that needs a program. -/
def withImage (s : Session) (k : Image → String × Session) : String × Session :=
  match s.image with
  | some image => k image
  | none => ("No program loaded\n", s)

def reset (s : Session) (image : Image) : String × Session :=
  let (echoed, s) := (s.restore image).drain
  (echoed ++ "Reset complete\n", s)

/-! ## Settings -/

def setPc (s : Session) (a : Address) : Session :=
  match s.mode with
  | .singleCycle => { s with single := s.single.setPc a }
  | .pipeline => { s with pipeline := s.pipeline.setPc a }

def setRegister (s : Session) (r : Reg) (w : Word) : Session :=
  { s with machine := { s.machine with registers := s.registers.write r w } }

def configure (s : Session) (change : Pipeline.Config → Pipeline.Config) : Session :=
  { s with pipeline := { s.pipeline with config := change s.pipeline.config } }

/-- Breakpoints are set for both cores. -/
def setBreakpoints (s : Session) (change : Breakpoints → Breakpoints) : Session :=
  { s with
    single := { s.single with breakpoints := change s.single.breakpoints }
    pipeline := { s.pipeline with breakpoints := change s.pipeline.breakpoints } }

/-! ## Display -/

def helpText : String :=
  String.join ([
    "Commands:",
    "  load <file> [addr] Load binary image (default address 0)",
    "  run [max]          Run until halt, breakpoint or max cycles",
    "  step [n]           Execute n cycles (default 1)",
    "  reset              Reset and reload the image",
    "  regs               Show all registers",
    "  reg <name> [val]   Show or set a single register",
    "  flags              Show NZCV flags",
    "  mem <addr> [n]     Show n bytes of memory",
    "  pc [addr]          Show or set PC",
    "  mode <s|p>         Set single-cycle or pipeline mode",
    "  hazards [on|off]   Show hazard status or toggle detection",
    "  forward <on|off>   Toggle forwarding",
    "  trace <on|off>     Toggle pipeline diagram recording",
    "  diagram [cols]     Show the pipeline diagram",
    "  break [addr]       Set or list breakpoints",
    "  clear              Clear all breakpoints",
    "  disasm [addr] [n]  Disassemble instructions",
    "  pipeline           Show pipeline state",
    "  uart [send <text>] Show UART state or inject input",
    "  gpio [in <value>]  Show GPIO state or drive inputs",
    "  map                Show the memory map",
    "  stats              Show statistics",
    "  quit               Exit emulator"].map Text.line)

def settingText (name : String) (on : Bool) : String := Text.line (name ++ ": " ++ Text.onOff on)

def disassemblyText (s : Session) (start : Address) (count : Nat) : String :=
  let row (i : Nat) : String :=
    let a := align start + UInt32.ofNat (4 * i)
    let w := s.board.peek a
    Text.line ("  " ++ Text.hex a ++ ": " ++ Text.hex w ++ "  " ++ disassemble w a
      ++ (if a = s.pc then "   <- pc" else ""))
  "Disassembly:\n" ++ String.join ((List.range count).map row)

def breakpointsText (s : Session) : String :=
  match s.pipeline.breakpoints with
  | [] => "No breakpoints (use 'break <addr>' to add)\n"
  | l => "Breakpoints:\n" ++ String.join (l.map fun a => Text.line ("  " ++ Text.hex a))

def uartText (u : Uart) : String :=
  Text.line ("UART @ " ++ Text.hex Board.uartBase ++ ":")
    ++ Text.line ("  STATUS = " ++ Text.hex u.status)
    ++ Text.line ("  CTRL   = " ++ Text.hex u.control)
    ++ Text.line ("  BAUD   = " ++ Text.decimal u.baud.toNat)
    ++ Text.line ("  TX log: \"" ++ Text.ofBytes u.transcript ++ "\"")

def gpioText (g : Gpio) : String :=
  Text.line ("GPIO @ " ++ Text.hex Board.gpioBase ++ ":")
    ++ Text.line ("  OUT  = " ++ Text.hex g.out)
    ++ Text.line ("  IN   = " ++ Text.hex g.inputs)
    ++ Text.line ("  DIR  = " ++ Text.hex g.dir)
    ++ Text.line ("  PINS = " ++ Text.hex g.pins)

def countText (name : String) (n : Nat) : String := Text.line ("  " ++ name ++ ": " ++ Text.decimal n)

def pipelineStatistics (p : Pipeline) : String :=
  let n := p.counters
  "  Mode: pipeline\n" ++ countText "Cycles" n.cycles ++ countText "Instructions" n.instructions
    ++ (if n.instructions = 0 then "" else Text.line ("  CPI: " ++ Text.quotient n.cycles n.instructions))
    ++ countText "Stalls" n.stalls ++ countText "Flushes" n.flushes ++ countText "Forwards" n.forwards
    ++ "  " ++ settingText "Hazard detection" p.config.hazardDetection
    ++ "  " ++ settingText "Forwarding" p.config.forwarding

def singleStatistics (c : SingleCycle) : String :=
  "  Mode: single-cycle\n" ++ countText "Cycles" c.cycles ++ countText "Instructions" c.instructions ++ "  CPI: 1.0\n"

def statisticsText (s : Session) : String :=
  "Statistics:\n"
    ++ (match s.mode with
      | .singleCycle => singleStatistics s.single
      | .pipeline => pipelineStatistics s.pipeline)
    ++ countText "Bus fetches" s.board.fetches ++ countText "Bus reads" s.board.reads
    ++ countText "Bus writes" s.board.writes ++ countText "Unmapped accesses" s.board.unmapped

/-! ## Commands -/

/-- What a command does and prints. -/
def execute (s : Session) (files : Files) : Command → String × Session
  | .nothing | .quit => ("", s)
  | .help => (helpText, s)
  | .load file origin =>
    match s.load files file origin with
    | .ok r => r
    | .error e => (Text.line e.message, s)
  | .run limit => s.withImage fun _ => s.run limit
  | .step count => s.withImage fun _ => s.steps "" count
  | .reset => s.withImage s.reset
  | .registers => (s.registers.text, s)
  | .register r => (s.registers.registerText r, s)
  | .setRegister r w =>
    let s := s.setRegister r w
    (s.registers.registerText r, s)
  | .flags => (s.registers.flagsText, s)
  | .memory start count => (s.board.dump start count, s)
  | .showPc => (Text.line ("PC = " ++ Text.hex s.pc) ++ s.instructionText s.pc, s)
  | .setPc a => (Text.line ("PC set to " ++ Text.hex (align a)), s.setPc a)
  | .showMode =>
    (Text.line ("Current mode: " ++ (match s.mode with
      | .singleCycle => "single"
      | .pipeline => "pipeline")), s)
  | .setMode .singleCycle => ("Mode: single-cycle\n", { s with mode := .singleCycle })
  | .setMode .pipeline => ("Mode: pipeline\n", { s with mode := .pipeline })
  | .showHazards =>
    (settingText "Hazard detection" s.pipeline.config.hazardDetection
      ++ Pipeline.hazardText s.pipeline.config s.pipeline.latches, s)
  | .setHazards on => (settingText "Hazard detection" on, s.configure fun c => { c with hazardDetection := on })
  | .showForwarding => (settingText "Forwarding" s.pipeline.config.forwarding, s)
  | .setForwarding on => (settingText "Forwarding" on, { s with pipeline := s.pipeline.setForwarding on })
  | .showTrace => (settingText "Trace" s.pipeline.config.trace, s)
  | .setTrace on => (settingText "Trace" on, s.configure fun c => { c with trace := on })
  | .diagram columns => (s.pipeline.diagramText columns, s)
  | .breakpoints => (s.breakpointsText, s)
  | .setBreakpoint a =>
    (Text.line ("Breakpoint set at " ++ Text.hex (align a)), s.setBreakpoints fun l => l.add (align a))
  | .clearBreakpoints => ("All breakpoints cleared\n", s.setBreakpoints fun _ => [])
  | .disassemble start count => (s.disassemblyText (start.getD s.pc) count, s)
  | .showPipeline =>
    match s.mode with
    | .singleCycle => ("Pipeline view only available in pipeline mode\n", s)
    | .pipeline => (s.pipeline.stateText s.registers.flags, s)
  | .showUart => (uartText s.board.uart, s)
  | .send text =>
    let bytes := Text.toBytes (Text.line text)
    (Text.line ("Queued " ++ Text.decimal bytes.length ++ " bytes"), s.setBoard (s.board.inject bytes))
  | .clearTranscript => ("", s.setBoard (s.board.setUart s.board.uart.clearTranscript))
  | .showGpio => (gpioText s.board.gpio, s)
  | .drivePins w =>
    let s := s.setBoard (s.board.setInputs w)
    (gpioText s.board.gpio, s)
  | .showMap => (s.board.regionsText, s)
  | .statistics => (s.statisticsText, s)

/-- A line's output, the session after it, and whether the session goes on. -/
structure Reply where
  output : String
  session : Session
  continues : Bool

def respond (s : Session) (files : Files) (line : String) : Reply :=
  match Command.parse line with
  | .ok c =>
    let (output, next) := s.execute files c
    ⟨output, next, c ≠ .quit⟩
  | .error refusal => ⟨Text.line refusal.message, s, true⟩

end Session

end FiveStageArm.Shell
