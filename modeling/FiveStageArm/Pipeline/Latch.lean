/-
  FiveStageArm.Pipeline.Latch — the four registers between the five stages. An empty latch
  is a bubble. A latch moves on at the clock edge, keeps what it holds, or takes a bubble.
-/

import FiveStageArm.Isa.Execute

namespace FiveStageArm.Pipeline

/-- Between fetch and decode. -/
structure Fetched where
  raw : Word
  pc : Address
  deriving DecidableEq

/-- Between decode and execute: the instruction, its condition not yet resolved, and its
    operands as the registers gave them. -/
structure Decoded where
  instruction : Instruction
  operands : Operands
  deriving DecidableEq

/-- Between execute and memory access. -/
structure Executed where
  instruction : Instruction
  result : Word
  storeValue : Word
  branchTaken : Bool
  branchTarget : Address
  deriving DecidableEq

/-- Between memory access and write-back. -/
structure Accessed where
  instruction : Instruction
  result : Word
  loaded : Word
  deriving DecidableEq

def Fetched.decode (f : Fetched) : Instruction := FiveStageArm.decode f.raw f.pc

/-- The address after the one the latch was fetched from. -/
def Fetched.nextPc (f : Fetched) : Address := f.pc + 4

def Decoded.nextPc (d : Decoded) : Address := d.instruction.pc + 4

/-- What goes to the destination register. -/
def Accessed.value (a : Accessed) : Word := if a.instruction.memRead then a.loaded else a.result

structure Latches where
  ifId : Option Fetched
  idEx : Option Decoded
  exMem : Option Executed
  memWb : Option Accessed
  deriving DecidableEq

def Latches.empty : Latches := ⟨none, none, none, none⟩

/-! ## The clock edge -/

inductive Action where
  | advance | hold | bubble
  deriving DecidableEq

def Action.apply (a : Action) (current next : Option α) : Option α :=
  match a with
  | .advance => next
  | .hold => current
  | .bubble => none

end FiveStageArm.Pipeline
