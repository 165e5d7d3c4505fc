/-
  FiveStageArm.Pipeline.Trace — a record of which stage each instruction address was in,
  cycle by cycle, and the diagram drawn from it. Only the latest `history` cycles are
  kept: when a record is made for a later cycle than any before, what has left the window
  is dropped. Cycles are 64-bit numbers, and so is the width of the window.

  Several copies of one address may be in flight, so a cell may hold more than one label;
  they are shown in the order of the records. A row shows the text recorded last for its
  address.
-/

import FiveStageArm.Text
import Std.Data.ExtTreeMap.Lemmas

namespace FiveStageArm.Pipeline

/-- An address and the stage label recorded for it. -/
structure Mark where
  pc : Address
  stage : String
  deriving DecidableEq

/-- What has been recorded for one cycle, newest first. -/
structure Column where
  cycle : Nat
  marks : List Mark
  deriving DecidableEq

structure Trace where
  /-- At least 1. -/
  history : Nat
  /-- One for each cycle that has a record, the one begun last first. -/
  columns : List Column
  /-- The latest text of each address. -/
  texts : Std.ExtTreeMap Address String
  first : Nat
  last : Nat

namespace Trace

def defaultHistory : Nat := 256

/-- A history of 0 is taken as 1. -/
def ofHistory (history : Nat) : Trace := ⟨max history 1, [], ∅, 0, 0⟩

def clear (t : Trace) : Trace := { t with columns := [], texts := ∅, first := 0, last := 0 }

def isEmpty (t : Trace) : Bool := t.columns.isEmpty

/-- The number of cycles from `first` to `last`. -/
def width (t : Trace) : Nat := (t.last - t.first + 1) % two64

/-- Drops what lies more than `history` cycles back. -/
def prune (t : Trace) : Trace :=
  if t.width ≤ t.history then t
  else
    let cutoff := t.last - t.history + 1
    { t with columns := t.columns.filter (cutoff ≤ ·.cycle), first := cutoff }

/-- Adds a mark to the first column of its cycle. -/
def addMark (cycle : Nat) (m : Mark) : List Column → List Column
  | [] => []
  | c :: cs => if c.cycle = cycle then { c with marks := m :: c.marks } :: cs else c :: addMark cycle m cs

/-- The columns with one more mark, in a column of its own if its cycle has none. -/
def insertMark (cycle : Nat) (m : Mark) (cs : List Column) : List Column :=
  if cs.any (·.cycle == cycle) then addMark cycle m cs else ⟨cycle, [m]⟩ :: cs

def record (t : Trace) (cycle : Nat) (pc : Address) (text stage : String) : Trace :=
  let advanced := t.isEmpty || t.last < cycle
  let marked : Trace :=
    { t with
      columns := insertMark cycle ⟨pc, stage⟩ t.columns
      texts := t.texts.insert pc text
      first := if t.isEmpty || cycle < t.first then cycle else t.first
      last := if advanced then cycle else t.last }
  if advanced then marked.prune else marked

/-! ## Cells -/

/-- An empty label at the front leaves no mark. -/
def join (labels : List String) : String :=
  labels.foldl (fun out label => if out.isEmpty then label else out ++ "/" ++ label) ""

/-- What a cell shows, given its labels; `-` when it has none. -/
def cellText (labels : List String) : String := if labels.isEmpty then "-" else join labels

/-- What has been recorded for a cycle, newest first. -/
def marksAt (t : Trace) (cycle : Nat) : List Mark := ((t.columns.find? (·.cycle == cycle)).map (·.marks)).getD []

/-- The labels of a cell, oldest first. -/
def labelsAt (t : Trace) (pc : Address) (cycle : Nat) : List String :=
  ((t.marksAt cycle).filter (·.pc == pc)).reverse.map (·.stage)

def stageAt (t : Trace) (pc : Address) (cycle : Nat) : String := cellText (t.labelsAt pc cycle)

/-! ## The diagram -/

/-- The addresses that have a record at or after `start`, in order. -/
def rowsFrom (t : Trace) (start : Nat) : List Address :=
  let marks := (t.columns.filter (start ≤ ·.cycle)).flatMap (·.marks)
  (marks.foldl (fun s m => s.insert m.pc ()) (∅ : Std.ExtTreeMap Address Unit)).keys

/-- The first cycle shown when at most `columns` fit; 0 columns show them all. -/
def startFor (t : Trace) (columns : Nat) : Nat :=
  if 0 < columns ∧ columns < t.width then t.last - columns + 1 else t.first

def headerText (cycles : List Nat) : String :=
  Text.line (Text.padRight 12 "Address" ++ Text.padRight 28 "Instruction"
    ++ String.join (cycles.map fun c => ";" ++ Text.padLeft 6 ' ' (Text.decimal c)))

/-- Only the first 27 characters of an instruction's text fit. -/
def rowText (t : Trace) (cycles : List Nat) (pc : Address) : String :=
  let text := String.ofList (((t.texts.get? pc).getD "").toList.take 27)
  Text.line (Text.padRight 12 (Text.hex pc) ++ Text.padRight 28 text
    ++ String.join (cycles.map fun c => ";" ++ Text.padRight 6 (t.stageAt pc c)))

/-- The diagram of at most `columns` cycles, the latest last. -/
def text (t : Trace) (columns : Nat) : String :=
  if t.isEmpty then "Pipeline diagram: (no cycles recorded)\n"
  else
    let start := t.startFor columns
    let cycles := List.range' start (t.last + 1 - start)
    Text.line ("Pipeline Diagram (cycles " ++ Text.decimal start ++ "-" ++ Text.decimal t.last ++ "):")
      ++ headerText cycles ++ String.join ((t.rowsFrom start).map (t.rowText cycles))

end Trace

end FiveStageArm.Pipeline
