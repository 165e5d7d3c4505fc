/-
  FiveStageArm.Machine — what the two cores share: a board and a set of registers, the two
  ways an instruction meets them (its operand reads and its data access), breakpoints and the
  run loop.

  The sixteen registers and the flags are written at the clock edge. A staged write or staged
  flags take effect at `commit`; until then only `readForwarded` sees the staged write, and
  nothing sees the staged flags. R15 is storage like the others: the cores keep their own
  program counter.

  A run stops at its limit, in a halted state, or in a state it has just entered where `stops`
  holds; it starts even where `stops` holds already.
-/

import FiveStageArm.Board
import FiveStageArm.Isa.Execute

namespace FiveStageArm

/-! ## Registers -/

structure Registers where
  values : Vector Word 16
  flags : Flags
  stagedWrite : Option (Reg × Word)
  stagedFlags : Option Flags
  deriving DecidableEq

namespace Registers

def zero : Registers := ⟨Vector.replicate 16 0, .clear, none, none⟩

def read (s : Registers) (r : Reg) : Word := s.values[r]

/-- The value `r` will have after the next commit. -/
def readForwarded (s : Registers) (r : Reg) : Word :=
  match s.stagedWrite with
  | some (d, w) => if d = r then w else s.read r
  | none => s.read r

def write (s : Registers) (r : Reg) (w : Word) : Registers := { s with values := s.values.set r w }

/-- A later staged write replaces an earlier one. -/
def stageWrite (s : Registers) (r : Reg) (w : Word) : Registers := { s with stagedWrite := some (r, w) }

def stageFlags (s : Registers) (f : Flags) : Registers := { s with stagedFlags := some f }

def setFlags (s : Registers) (f : Flags) : Registers := { s with flags := f }

def commit (s : Registers) : Registers :=
  { values := match s.stagedWrite with
      | some (r, w) => s.values.set r w
      | none => s.values
    flags := s.stagedFlags.getD s.flags
    stagedWrite := none
    stagedFlags := none }

/-! ### Display -/

def flagsText (s : Registers) : String := Text.line ("  Flags: " ++ s.flags.text)

/-- One register, in hexadecimal and as a signed number. -/
def registerText (s : Registers) (r : Reg) : String :=
  Text.line (r.name ++ " = " ++ Text.hex (s.read r) ++ " (" ++ Text.integer (signed (s.read r)) ++ ")")

/-- One register by any number. -/
def indexText (s : Registers) (i : Int) : String :=
  match Reg.ofInt i with
  | .ok r => s.registerText r
  | .error e => Text.line e.message

def cellText (s : Registers) (r : Reg) : String := Text.padRight 3 r.name ++ "= " ++ Text.hex (s.read r)

/-- Four rows of four, then the flags. -/
def text (s : Registers) : String :=
  let row (i : Fin 4) : String :=
    let cells := (List.finRange 4).map fun (j : Fin 4) => s.cellText ⟨4 * i.val + j.val, by omega⟩
    Text.line ("  " ++ "  ".intercalate cells)
  "Registers:\n" ++ String.join ((List.finRange 4).map row) ++ s.flagsText

end Registers

/-! ## Board and registers -/

structure Machine where
  board : Board
  registers : Registers

def Machine.fresh : Machine := ⟨.empty, .zero⟩

/-- The operand values of an instruction, where `value` gives the registers. R15 reads as
    the instruction's address plus 8. -/
def Instruction.operands (i : Instruction) (value : Reg → Word) : Operands :=
  let read (r : Reg) : Word := if r = .pc then i.pc + 8 else value r
  ⟨read i.operation.rn, read i.operation.rm, read i.operation.rs, read i.operation.rd⟩

/-- The load or store of an instruction that passed; anything else leaves the bus alone.
    A store, like no access at all, hands back 0. -/
def Bus.access (b : Bus n) (i : Instruction) (a : Address) (stored : Word) : Word × Bus n :=
  if i.memRead then
    if i.operation.isByte then
      let (v, b) := b.readByte a
      (v.toUInt32, b)
    else b.read a
  else if i.memWrite then (0, if i.operation.isByte then b.writeByte a stored.toUInt8 else b.write a stored)
  else (0, b)

/-! ## Runs -/

/-- In the order in which they were added, each once. -/
abbrev Breakpoints := List Address

namespace Breakpoints

def add (l : Breakpoints) (a : Address) : Breakpoints := if l.contains a then l else l ++ [a]

def remove (l : Breakpoints) (a : Address) : Breakpoints := l.filter (· != a)

end Breakpoints

/-- Adds the steps taken, at most `limit`, to `taken`. -/
@[specialize] def runFrom (halted stops : σ → Bool) (step : σ → σ) : (limit taken : Nat) → σ → Nat × σ
  | 0, taken, s => (taken, s)
  | limit + 1, taken, s =>
    if halted s then (taken, s)
    else
      let s := step s
      if stops s then (taken + 1, s) else runFrom halted stops step limit (taken + 1) s

/-- How many steps an unlimited run may take. -/
def defaultLimit : Nat := 1000000

end FiveStageArm
