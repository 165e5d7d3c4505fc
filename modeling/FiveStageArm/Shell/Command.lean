/-
  FiveStageArm.Shell.Command — the shell's commands and how a line is read as one. A line
  is split at blanks; its first word, in any case, names the command. A line that names no
  command, or names one with arguments it cannot have, is refused with the reason; of
  several faults the leftmost argument's is given, except that the number in
  `reg <name> <value>` is read before the name.
-/

import FiveStageArm.Machine

namespace FiveStageArm.Shell

inductive Mode where
  | singleCycle
  | pipeline
  deriving DecidableEq

inductive Command where
  /-- A line without words. -/
  | nothing
  | quit
  | help
  | load (file : String) (origin : Address)
  | run (limit : Nat)
  | step (count : Nat)
  | reset
  | registers
  | register (r : Reg)
  | setRegister (r : Reg) (w : Word)
  | flags
  | memory (start : Address) (count : Nat)
  | showPc
  | setPc (a : Address)
  | showMode
  | setMode (m : Mode)
  | showHazards
  | setHazards (on : Bool)
  | showForwarding
  | setForwarding (on : Bool)
  | showTrace
  | setTrace (on : Bool)
  | diagram (columns : Nat)
  | breakpoints
  | setBreakpoint (a : Address)
  | clearBreakpoints
  /-- From the program counter when no start is given. -/
  | disassemble (start : Option Address) (count : Nat)
  | showPipeline
  | showUart
  | send (text : String)
  | clearTranscript
  | showGpio
  | drivePins (w : Word)
  | showMap
  | statistics
  deriving DecidableEq

inductive Refusal where
  | unknownCommand (word : String)
  | usage (form : String)
  | invalidNumber (word : String)
  | unknownRegister (word : String)
  | unknownMode
  | notASwitch
  deriving DecidableEq

def Refusal.message : Refusal → String
  | unknownCommand word => "Unknown command: " ++ word ++ ". Type 'help' for commands."
  | usage form => "Usage: " ++ form
  | invalidNumber word => "Invalid number: " ++ word
  | unknownRegister word => "Unknown register: " ++ word
  | unknownMode => "Unknown mode. Use 'single' or 'pipeline'"
  | notASwitch => "Use 'on' or 'off'"

/-! ## Words -/

/-- Here `word` is what has been read of the current word, last character first. -/
def splitWords (word : List Char) : List Char → List String
  | [] => if word.isEmpty then [] else [String.ofList word.reverse]
  | c :: cs =>
    if Text.isBlank c then
      if word.isEmpty then splitWords [] cs else String.ofList word.reverse :: splitWords [] cs
    else splitWords (c :: word) cs

def words (line : String) : List String := splitWords [] line.toList

/-- Only the letters A to Z have a lower case. -/
def lower (s : String) : String := s.map Char.toLower

/-! ## Arguments -/

/-- Hexadecimal after `0x` or `0X`, decimal otherwise, without a sign and below 2^32. -/
def parseNumber (s : String) : Option Word :=
  let (radix, digits) : Text.Radix × List Char := match s.toList with
    | '0' :: x :: d :: ds => if x = 'x' ∨ x = 'X' then (.hexadecimal, d :: ds) else (.decimal, '0' :: x :: d :: ds)
    | cs => (.decimal, cs)
  match digits with
  | '-' :: _ => none
  | '+' :: _ => none
  | _ =>
    match Text.Numeral.read? radix digits with
    | some n => if n.rest.isEmpty && n.magnitude < two32 then some (UInt32.ofNat n.magnitude) else none
    | none => none

def parseSwitch (s : String) : Option Bool :=
  match lower s with
  | "on" | "1" | "true" => some true
  | "off" | "0" | "false" => some false
  | _ => none

/-- R0 to R15, the number in one or two digits, or one of the three names. -/
def parseRegister (s : String) : Option Reg :=
  match (lower s).toList with
  | ['s', 'p'] => some .sp
  | ['l', 'r'] => some .lr
  | ['p', 'c'] => some .pc
  | ['r', a] => (Text.digit? 10 a).bind ofIndex
  | ['r', a, b] => (Text.digit? 10 a).bind fun x => (Text.digit? 10 b).bind fun y => ofIndex (10 * x + y)
  | _ => none
where
  ofIndex (i : Nat) : Option Reg := if h : i < 16 then some ⟨i, h⟩ else none

def parseMode (s : String) : Option Mode :=
  match lower s with
  | "single" | "s" => some .singleCycle
  | "pipeline" | "pipe" | "p" => some .pipeline
  | _ => none

def number (word : String) : Except Refusal Word :=
  match parseNumber word with
  | some w => .ok w
  | none => .error (.invalidNumber word)

/-- A number that may be left out. -/
def numberOr (fallback : Word) : List String → Except Refusal Word
  | [] => .ok fallback
  | word :: _ => number word

def register (word : String) : Except Refusal Reg :=
  match parseRegister word with
  | some r => .ok r
  | none => .error (.unknownRegister word)

/-- A switch; without an argument the command shows its setting. -/
def switchOr (shown : Command) (set : Bool → Command) : List String → Except Refusal Command
  | [] => .ok shown
  | word :: _ =>
    match parseSwitch word with
    | some on => .ok (set on)
    | none => .error .notASwitch

/-! ## Commands -/

inductive Keyword where
  | quit | help | load | run | step | reset | registers | register | flags | memory | pc | mode | hazards
  | forwarding | trace | diagram | breakpoint | clear | disassemble | pipeline | uart | gpio | map | statistics
  deriving DecidableEq

/-- The spellings of a command, in lower case. -/
def keyword? : String → Option Keyword
  | "quit" | "exit" | "q" => some .quit
  | "help" | "h" | "?" => some .help
  | "load" | "l" => some .load
  | "run" | "r" => some .run
  | "step" | "s" => some .step
  | "reset" => some .reset
  | "regs" | "registers" => some .registers
  | "reg" => some .register
  | "flags" => some .flags
  | "mem" | "memory" | "m" => some .memory
  | "pc" => some .pc
  | "mode" => some .mode
  | "hazards" => some .hazards
  | "forward" | "forwarding" => some .forwarding
  | "trace" => some .trace
  | "diagram" => some .diagram
  | "break" | "b" => some .breakpoint
  | "clear" => some .clear
  | "disasm" | "d" => some .disassemble
  | "pipeline" | "pipe" | "p" => some .pipeline
  | "uart" => some .uart
  | "gpio" => some .gpio
  | "map" => some .map
  | "stats" => some .statistics
  | _ => none

def parseLoad : List String → Except Refusal Command
  | [] => .error (.usage "load <file> [address]")
  | file :: rest => (numberOr 0 rest).map (.load file)

def parseRegisterCommand : List String → Except Refusal Command
  | [] => .error (.usage "reg <register> [value]")
  | [name] => (register name).map .register
  | name :: value :: _ => do
    let w ← number value
    let r ← register name
    return if r = .pc then .setPc w else .setRegister r w

def parseMemory : List String → Except Refusal Command
  | [] => .error (.usage "mem <address> [count]")
  | start :: rest => do
    let a ← number start
    let count ← numberOr 64 rest
    return .memory a count.toNat

def parseModeCommand : List String → Except Refusal Command
  | [] => .ok .showMode
  | word :: _ =>
    match parseMode word with
    | some m => .ok (.setMode m)
    | none => .error .unknownMode

def parseDisassemble : List String → Except Refusal Command
  | [] => .ok (.disassemble none 10)
  | start :: rest => do
    let a ← number start
    let count ← numberOr 10 rest
    return .disassemble (some a) count.toNat

/-- Sent words are joined by single spaces. -/
def parseUart : List String → Command
  | "send" :: word :: rest => .send (" ".intercalate (word :: rest))
  | "clear" :: _ => .clearTranscript
  | _ => .showUart

def parseGpio : List String → Except Refusal Command
  | "in" :: word :: _ => (number word).map .drivePins
  | _ => .ok .showGpio

/-- The command of a keyword and the words after it. Words it has no use for are
    ignored, and a run of 0 steps means the default limit. -/
def Keyword.parse (k : Keyword) (args : List String) : Except Refusal Command :=
  match k with
  | .quit => .ok .quit
  | .help => .ok .help
  | .load => parseLoad args
  | .run => (numberOr 0 args).map fun w => .run (if w = 0 then defaultLimit else w.toNat)
  | .step => (numberOr 1 args).map fun w => .step w.toNat
  | .reset => .ok .reset
  | .registers => .ok .registers
  | .register => parseRegisterCommand args
  | .flags => .ok .flags
  | .memory => parseMemory args
  | .pc =>
    match args with
    | [] => .ok .showPc
    | word :: _ => (number word).map .setPc
  | .mode => parseModeCommand args
  | .hazards => switchOr .showHazards .setHazards args
  | .forwarding => switchOr .showForwarding .setForwarding args
  | .trace => switchOr .showTrace .setTrace args
  | .diagram => (numberOr 32 args).map fun w => .diagram w.toNat
  | .breakpoint =>
    match args with
    | [] => .ok .breakpoints
    | word :: _ => (number word).map .setBreakpoint
  | .clear => .ok .clearBreakpoints
  | .disassemble => parseDisassemble args
  | .pipeline => .ok .showPipeline
  | .uart => .ok (parseUart args)
  | .gpio => parseGpio args
  | .map => .ok .showMap
  | .statistics => .ok .statistics

def Command.parse (line : String) : Except Refusal Command :=
  match words line with
  | [] => .ok .nothing
  | word :: args =>
    match keyword? (lower word) with
    | some k => k.parse args
    | none => .error (.unknownCommand (lower word))

end FiveStageArm.Shell
