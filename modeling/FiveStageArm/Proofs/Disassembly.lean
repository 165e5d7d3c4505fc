/-
  FiveStageArm.Proofs.Disassembly — what a word does can be told from its text. A step is taken
  apart at its fetch: `carryOut` decodes, executes and retires a word however it was come by.

  Proved: two words with one text at one address do the same from any state of the core, the
  registers and the board. Where a logical operation sets the flags from a rotated byte, C
  may differ: it is the last bit rotated, or stays as it was when nothing was rotated, and
  the text gives only the value (`text_tells_effect`).
-/

import FiveStageArm.Proofs.Isa.Assembly
import FiveStageArm.Proofs.Skipping

namespace FiveStageArm

namespace SingleCycle

/-! ## A step after its fetch -/

section

variable (i : Instruction) (s : SingleCycle × Machine)

/-- What an instruction comes to from the registers as they are. -/
def outcomeOf : Outcome := i.execute (i.operands s.2.registers.read) s.2.registers.flags

/-- What the bus hands back, and the board afterwards. -/
def accessOf : Word × Board := s.2.board.access i (outcomeOf i s).result (outcomeOf i s).storeValue

/-- What goes to the destination register. -/
def writtenOf : Word := if i.memRead then (accessOf i s).1 else (outcomeOf i s).result

/-- Executes and retires an instruction. -/
def perform : SingleCycle × Machine :=
  ({ s.1 with
      pc := if (outcomeOf i s).branchTaken then (outcomeOf i s).branchTarget else s.1.pc + 4
      cycles := s.1.cycles + 1
      instructions := s.1.instructions + 1
      halted := i.isSelfBranch
      last := some i },
    ⟨(accessOf i s).2, writeBack s.2.registers i (writtenOf i s) (outcomeOf i s).flags⟩)

end

/-- What a step does with `w` for the word it fetched. -/
def carryOut (w : Word) (s : SingleCycle × Machine) : SingleCycle × Machine :=
  perform (decodeGated w s.1.pc s.2.registers.flags) s

theorem retire_eq_carryOut (s : SingleCycle × Machine) :
    retire s = carryOut (word s) (s.1, ⟨(s.2.board.fetch s.1.pc).2, s.2.registers⟩) := rfl

/-- The same R0 to R14, board, next address and halt, and the same flags but for C. -/
structure SameButCarry (x y : SingleCycle × Machine) : Prop where
  pc : x.1.pc = y.1.pc
  halted : x.1.halted = y.1.halted
  board : x.2.board = y.2.board
  registers : ∀ r, r ≠ Reg.pc → x.2.registers.read r = y.2.registers.read r
  n : x.2.registers.flags.n = y.2.registers.flags.n
  z : x.2.registers.flags.z = y.2.registers.flags.z
  v : x.2.registers.flags.v = y.2.registers.flags.v

/-! ## Instructions that are alike -/

section

variable {i j : Instruction} (h : i.Alike j) (s : SingleCycle × Machine)

include h

/-- Their outcomes, what a load would store and the carry apart. -/
theorem outcomeOf_alike :
    outcomeOf j s =
      { outcomeOf i s with
        storeValue := (outcomeOf j s).storeValue
        flags := { (outcomeOf i s).flags with c := (outcomeOf j s).flags.c } } := by
  have sources := i.execute_congr (h.sameSources s.2.registers.read) s.2.registers.flags
  have operation := h.execute (j.operands s.2.registers.read) s.2.registers.flags
  have same : outcomeOf j s =
      { outcomeOf i s with
        storeValue := (i.execute (j.operands s.2.registers.read) s.2.registers.flags).storeValue
        flags := { (outcomeOf i s).flags with c := (outcomeOf j s).flags.c } } := by
    unfold outcomeOf
    rw [sources]
    exact operation
  rw [congrArg Outcome.storeValue same]
  exact same

theorem storeValue_alike (stores : i.memWrite) : (outcomeOf i s).storeValue = (outcomeOf j s).storeValue := by
  simp only [Instruction.memWrite, Bool.and_eq_true] at stores
  unfold outcomeOf
  rw [i.storeValue_congr (h.sameSources _) stores.2, h.execute]

theorem accessOf_alike : accessOf i s = accessOf j s := by
  have signals := h.sameSignals
  have result := congrArg Outcome.result (outcomeOf_alike h s)
  unfold accessOf
  rw [i.access_storeValue_congr _ _ (storeValue_alike h s), result]
  unfold Bus.access
  rw [signals.memRead, signals.memWrite, signals.isByte]

theorem writtenOf_alike : writtenOf i s = writtenOf j s := by
  have result := congrArg Outcome.result (outcomeOf_alike h s)
  unfold writtenOf
  rw [h.sameSignals.memRead, accessOf_alike h s, result]

theorem flags_perform_alike :
    (perform j s).2.registers.flags =
      { (perform i s).2.registers.flags with c := (perform j s).2.registers.flags.c } := by
  unfold perform
  simp only [flags_writeBack, h.sameSignals.setFlags]
  split
  · exact congrArg Outcome.flags (outcomeOf_alike h s)
  · rfl

theorem sameButCarry_perform : SameButCarry (perform i s) (perform j s) := by
  have signals := h.sameSignals
  have flags := flags_perform_alike h s
  refine ⟨?_, signals.isSelfBranch, congrArg Prod.snd (accessOf_alike h s), fun r hr => ?_, ?_, ?_, ?_⟩
  · show (if (outcomeOf i s).branchTaken then (outcomeOf i s).branchTarget else s.1.pc + 4) =
      if (outcomeOf j s).branchTaken then (outcomeOf j s).branchTarget else s.1.pc + 4
    rw [outcomeOf_alike h s]
  · show (writeBack _ i _ _).read r = (writeBack _ j _ _).read r
    rw [read_writeBack _ _ _ _ hr, read_writeBack _ _ _ _ hr, writtenOf_alike h s, ← signals.regWrite]
    by_cases writes : i.regWrite
    · rw [signals.rd writes]
    · simp [writes]
  · rw [flags]
  · rw [flags]
  · rw [flags]

theorem carry_perform (unrotated : i.operation.takesRotationCarry = false) :
    (perform i s).2.registers.flags.c = (perform j s).2.registers.flags.c := by
  have sources := i.execute_congr (h.sameSources s.2.registers.read) s.2.registers.flags
  have carry := h.execute_carry unrotated (j.operands s.2.registers.read) s.2.registers.flags
  unfold perform
  simp only [flags_writeBack, h.sameSignals.setFlags]
  split
  · unfold outcomeOf
    rw [sources]
    exact carry
  · rfl

end

theorem alike_decodeGated {w w' : Word} {pc : Address} (h : disassemble w pc = disassemble w' pc) (f : Flags) :
    (decodeGated w pc f).Alike (decodeGated w' pc f) := by
  obtain ⟨operation, cond⟩ := Instruction.alike_of_text (i := decode w pc) (j := decode w' pc) rfl
    (Decode.inRange_operation w) (Decode.inRange_operation w') h
  exact ⟨rfl, operation, fun active => congrArg (·.holds f) (cond active)⟩

/-! ## Words that read alike -/

/-- Two words that are disassembled alike do the same where they stand, the carry aside, and the
    carry too unless it comes out of a rotated immediate. -/
theorem text_tells_effect {w w' : Word} (s : SingleCycle × Machine)
    (same : disassemble w s.1.pc = disassemble w' s.1.pc) :
    SameButCarry (carryOut w s) (carryOut w' s) ∧
      ((decode w s.1.pc).operation.takesRotationCarry = false →
        (carryOut w s).2.registers.flags.c = (carryOut w' s).2.registers.flags.c) := by
  have alike := alike_decodeGated same s.2.registers.flags
  exact ⟨sameButCarry_perform alike s, carry_perform alike s⟩

/-- An offset of 0 added before the access and one subtracted after it. -/
theorem text_tells_effect_zeroOffset :
    disassemble 0xE5912000 0 = "LDR R2, [R1]" ∧ disassemble 0xE4112000 0 = "LDR R2, [R1]" ∧
      SameButCarry (carryOut 0xE5912000 (fresh, .fresh)) (carryOut 0xE4112000 (fresh, .fresh)) ∧
      (carryOut 0xE5912000 (fresh, .fresh)).2.registers.flags.c =
        (carryOut 0xE4112000 (fresh, .fresh)).2.registers.flags.c := by
  have same : disassemble 0xE5912000 0 = disassemble 0xE4112000 0 := by decide +kernel
  obtain ⟨effect, carry⟩ := text_tells_effect (fresh, .fresh) same
  exact ⟨by decide +kernel, by decide +kernel, effect, carry (by decide)⟩

/-- MOVS R0, #0x1 with the byte 1 keeps C, and with the byte 4 rotated right by 2 clears it. -/
example :
    let s : SingleCycle × Machine := (fresh, ⟨.empty, Registers.zero.setFlags ⟨false, false, true, false⟩⟩)
    disassemble 0xE3B00001 0 = disassemble 0xE3B00104 0 ∧ (carryOut 0xE3B00001 s).2.registers.flags.c = true ∧
      (carryOut 0xE3B00104 s).2.registers.flags.c = false := by
  decide +kernel

end SingleCycle

end FiveStageArm
