/-
  FiveStageArm.Pipeline.Display — the pipeline as the debugger shows it: what each stage
  completed in the last cycle, the hazards the next one will meet, and the diagram.
-/

import FiveStageArm.Pipeline.Basic

namespace FiveStageArm.Pipeline

/-! ## Stages -/

def stageText (label : String) (occupant : Option (Address × String)) : String :=
  match occupant with
  | some (pc, text) => Text.line ("  " ++ label ++ ": [" ++ Text.hex pc ++ "] " ++ text)
  | none => Text.line ("  " ++ label ++ ": (bubble)")

def instructionText (i : Instruction) : Address × String := (i.pc, i.text)

def writeBackText (memWb : Option Accessed) : String :=
  match memWb with
  | some a => if a.instruction.regWrite then a.instruction.rd.name ++ " <- " ++ Text.hex a.value else "(none)"
  | none => "(none)"

/-- The core as it stands after its last cycle, with the flags of its registers. -/
def stateText (p : Pipeline) (flags : Flags) : String :=
  let l := p.latches
  Text.line ("Cycle " ++ Text.decimal p.counters.cycles ++ ":  PC=" ++ Text.hex p.pc ++ "  Flags=" ++ flags.text
      ++ (if p.stalled then "  [stall]" else "") ++ (if p.decision.flush then "  [flush]" else ""))
    ++ stageText "IF " (l.ifId.map fun f => instructionText f.decode)
    ++ stageText "ID " (l.idEx.map fun d => instructionText d.instruction)
    ++ stageText "EX " (l.exMem.map fun e => instructionText e.instruction)
    ++ stageText "MEM" (l.memWb.map fun a => instructionText a.instruction)
    ++ Text.line ("  WB : " ++ writeBackText l.memWb)

/-! ## Hazards -/

/-- The instruction named as the producer is the one in ID/EX, whichever the hazard is. -/
def stallText (config : Config) (l : Latches) : String :=
  "  " ++ (if config.forwarding then "LOAD-USE" else "RAW") ++ " HAZARD: stall required\n"
    ++ Text.line ("    Producer: " ++ l.idEx.elim "" (·.instruction.text))
    ++ Text.line ("    Next: " ++ l.ifId.elim "" (·.decode.text))

def forwardText (role : String) (r : Reg) (source : Source) : String :=
  if source = .latched then ""
  else Text.line ("  FORWARD " ++ role ++ " (" ++ r.name ++ ") from " ++ source.name)

def forwardsText (o : Operation) (b : Bypass) : String :=
  forwardText "Rn" o.rn b.rn ++ forwardText "Rm" o.rm b.rm ++ forwardText "Rs" o.rs b.rs ++ forwardText "Rd" o.rd b.rd

def hazardText (config : Config) (l : Latches) : String :=
  let d := Decision.evaluate config l
  "Hazard Unit Status:\n"
    ++ (if d.stall then stallText config l else "")
    ++ l.idEx.elim "" (fun e => forwardsText e.instruction.operation d.bypass)
    ++ (if !d.stall && d.bypass.count == 0 then "  (no data hazards)\n" else "")

/-! ## The diagram -/

def diagramText (p : Pipeline) (columns : Nat) : String :=
  if !p.config.trace && p.trace.isEmpty then "Tracing is off (use 'trace on')\n" else p.trace.text columns

end FiveStageArm.Pipeline
