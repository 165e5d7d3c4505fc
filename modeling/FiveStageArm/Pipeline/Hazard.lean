/-
  FiveStageArm.Pipeline.Hazard — where an operand comes from, and when decode has to wait.
  Everything is decided from the latches as they stand at the start of a cycle.

  With forwarding, execute takes an operand from the youngest older instruction that
  writes its register: from EX/MEM, unless that is a load, whose data is not there yet,
  else from MEM/WB. Decode then waits only for a load directly ahead of it. Without
  forwarding it waits for any writer in ID/EX or EX/MEM; one in MEM/WB writes in the same
  cycle in which decode reads. A producer whose condition is not yet resolved counts.
-/

import FiveStageArm.Pipeline.Latch

namespace FiveStageArm.Pipeline

structure Config where
  forwarding : Bool
  hazardDetection : Bool
  trace : Bool
  deriving DecidableEq

def Config.standard : Config := ⟨true, true, false⟩

/-! ## Hazards -/

/-- A load in ID/EX whose destination `next` reads. -/
def loadUse (idEx : Option Decoded) (next : Operation) : Bool :=
  idEx.any fun d => d.instruction.memRead && next.reads d.instruction.rd

/-- A writer in ID/EX or EX/MEM whose destination `next` reads. -/
def rawHazard (idEx : Option Decoded) (exMem : Option Executed) (next : Operation) : Bool :=
  idEx.any (fun d => d.instruction.regWrite && next.reads d.instruction.rd)
    || exMem.any (fun e => e.instruction.regWrite && next.reads e.instruction.rd)

/-- Whether decode has to wait this cycle. -/
def mustStall (config : Config) (l : Latches) : Bool :=
  config.hazardDetection && l.ifId.any fun f =>
    let next := f.decode.operation
    if config.forwarding then loadUse l.idEx next else rawHazard l.idEx l.exMem next

/-! ## Forwarding -/

/-- Where execute takes an operand from. -/
inductive Source where
  /-- What decode read. -/
  | latched
  | exMem
  | memWb
  deriving DecidableEq

def Source.name : Source → String
  | latched => "none"
  | exMem => "EX/MEM"
  | memWb => "MEM/WB"

/-- The source for register `r`. R15 is never forwarded. -/
def sourceOf (r : Reg) (exMem : Option Executed) (memWb : Option Accessed) : Source :=
  if r = .pc then .latched
  else if exMem.any (fun e => e.instruction.regWrite && !e.instruction.memRead && e.instruction.rd == r) then .exMem
  else if memWb.any (fun a => a.instruction.regWrite && a.instruction.rd == r) then .memWb
  else .latched

/-- The source of each operand, by role. -/
structure Bypass where
  rn : Source
  rm : Source
  rs : Source
  rd : Source
  deriving DecidableEq

def Bypass.none : Bypass := ⟨.latched, .latched, .latched, .latched⟩

def Bypass.toList (b : Bypass) : List Source := [b.rn, b.rm, b.rs, b.rd]

/-- How many operands are forwarded. -/
def Bypass.count (b : Bypass) : Nat := b.toList.countP (· != .latched)

/-- Only roles the operation reads are forwarded. -/
def Bypass.of (o : Operation) (exMem : Option Executed) (memWb : Option Accessed) : Bypass :=
  let source (used : Bool) (r : Reg) : Source := if used then sourceOf r exMem memWb else .latched
  ⟨source o.usesRn o.rn, source o.usesRm o.rm, source o.usesRs o.rs, source o.usesRd o.rd⟩

/-! ## The decision for one cycle -/

structure Decision where
  stall : Bool
  flush : Bool
  bypass : Bypass
  deriving DecidableEq

namespace Decision

def idle : Decision := ⟨false, false, .none⟩

/-- The decision before the branch in execute is resolved. -/
def evaluate (config : Config) (l : Latches) : Decision :=
  { stall := mustStall config l
    flush := false
    bypass := if config.forwarding then l.idEx.elim .none fun d => .of d.instruction.operation l.exMem l.memWb
      else .none }

/-- Folds in whether execute took a branch. -/
def resolve (d : Decision) (branchTaken : Bool) : Decision := { d with flush := branchTaken }

/-- Fetch and decode wait: a stall that no branch overrides. -/
def holds (d : Decision) : Bool := d.stall && !d.flush

/-- A taken branch redirects fetch instead of holding it. -/
def pc (d : Decision) : Action := if d.holds then .hold else .advance

/-- A taken branch squashes what was fetched behind it. -/
def ifId (d : Decision) : Action := if d.flush then .bubble else if d.stall then .hold else .advance

def idEx (d : Decision) : Action := if d.flush || d.stall then .bubble else .advance

def exMem (_ : Decision) : Action := .advance

def memWb (_ : Decision) : Action := .advance

end Decision

end FiveStageArm.Pipeline
