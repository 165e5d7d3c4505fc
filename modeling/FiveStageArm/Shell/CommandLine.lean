/-
  FiveStageArm.Shell.CommandLine — the program as its user starts it: an image to load and
  its address, both optional, then lines until `quit` or the end of the input. The address
  is decimal, or octal after a `0`, or hexadecimal after a `0x`, of 64 bits, of which the
  low 32 are used; what follows its digits is ignored.
-/

import FiveStageArm.Shell.Session

namespace FiveStageArm.Shell

inductive StartError where
  | badAddress (word : String)
  | load (e : LoadError)
  deriving DecidableEq

/-- A failed load is told on the output, like any other. -/
def StartError.output : StartError → String
  | badAddress _ => ""
  | load e => Text.line e.message

/-- A bad address is told on the error stream. -/
def StartError.errors : StartError → String
  | badAddress word => Text.line ("Invalid load address: " ++ word)
  | load _ => ""

def parseOrigin (s : String) : Option Address :=
  ((Text.Numeral.read? .marked s.toList).bind Text.Numeral.value?).map UInt32.ofNat

/-- The session after the arguments, and what loading printed. Arguments after the second
    are ignored. -/
def start (files : Files) : List String → Except StartError (String × Session)
  | [] => .ok ("", .fresh)
  | file :: rest => do
    let origin ← match rest with
      | [] => pure 0
      | word :: _ =>
        match parseOrigin word with
        | some a => pure a
        | none => throw (.badAddress word)
    (Session.fresh.load files file origin).mapError .load

def welcomeText : String := "\nARM7 Pipeline Emulator (5-stage)\nType 'help' for commands\n\n"

def goodbyeText : String := "Goodbye!\n"

def promptText (s : Session) : String :=
  let mode := match s.mode with
    | .singleCycle => "single"
    | .pipeline => "pipe"
  "[" ++ mode ++ " " ++ Text.hex s.pc ++ "] > "

/-- Answers the lines; `shown` is what has been printed so far. -/
def interact (files : Files) (s : Session) (shown : String) : List String → String
  | [] => shown ++ promptText s ++ goodbyeText
  | line :: lines =>
    let r := s.respond files line
    let shown := shown ++ promptText s ++ r.output
    if r.continues then interact files r.session shown lines else shown ++ goodbyeText

/-- The lines of an input; one that no line feed ends counts unless it is empty. -/
def splitLines (input : String) : List String :=
  go [] input.toList
where
  go (line : List Char) : List Char → List String
    | [] => if line.isEmpty then [] else [String.ofList line.reverse]
    | c :: cs => if c = '\n' then String.ofList line.reverse :: go [] cs else go (c :: line) cs

structure Exit where
  code : Nat
  output : String
  errors : String

def runProgram (files : Files) (args : List String) (input : String) : Exit :=
  match start files args with
  | .ok (output, s) => ⟨0, interact files s (output ++ welcomeText) (splitLines input), ""⟩
  | .error e => ⟨1, e.output, e.errors⟩

end FiveStageArm.Shell
