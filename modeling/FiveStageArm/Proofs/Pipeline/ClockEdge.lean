/-
  FiveStageArm.Proofs.Pipeline.ClockEdge — what a clock edge writes, whatever the latches hold.
  Write-back, execute and decode meet in the registers: the first stages a register before
  the last reads its operands, the second stages the flags, and both take effect together.
  Neither a stall nor a branch taken in the same cycle holds either of them back.

  Proved:
  - One writer each (`one_writer_per_edge`): a register takes the value of the instruction in
    MEM/WB that writes it, the flags take those of the instruction in ID/EX that sets them, and
    neither changes otherwise. What is in ID/EX afterwards was decoded from the registers as
    they then are, and nothing is left staged.
  - So a register that is not what it was some cycles ago has been written back since
    (`written_of_changed`).
-/

import FiveStageArm.Proofs.Pipeline.Cycle
import Mathlib.Logic.Function.Iterate

namespace FiveStageArm

namespace Pipeline

/-- The instruction in MEM/WB writes `w` to `r`. -/
def WritesBack (memWb : Option Accessed) (r : Reg) (w : Word) : Prop :=
  ∃ a ∈ memWb, a.instruction.regWrite ∧ a.instruction.rd = r ∧ a.value = w

/-- The instruction in ID/EX passes, and sets the flags to `f` from its forwarded operands. -/
def SetsFlags (s : Pipeline × Machine) (f : Flags) : Prop :=
  ∃ d ∈ s.1.latches.idEx, d.instruction.cond.holds s.2.registers.flags ∧ d.instruction.operation.setsFlags ∧
    ((d.instruction.gate s.2.registers.flags).execute (forward s.1.latches (bypass s) d.operands)
      s.2.registers.flags).flags = f

instance (memWb : Option Accessed) (r : Reg) (w : Word) : Decidable (WritesBack memWb r w) :=
  inferInstanceAs (Decidable (∃ a ∈ memWb, _ ∧ _))

instance (s : Pipeline × Machine) (f : Flags) : Decidable (SetsFlags s f) :=
  inferInstanceAs (Decidable (∃ d ∈ s.1.latches.idEx, _ ∧ _))

/-- The operand of every role but R15 is what `value` gives its register. -/
structure Decoded.Reads (d : Decoded) (value : Reg → Word) : Prop where
  rn : d.instruction.operation.rn ≠ .pc → d.operands.rn = value d.instruction.operation.rn
  rm : d.instruction.operation.rm ≠ .pc → d.operands.rm = value d.instruction.operation.rm
  rs : d.instruction.operation.rs ≠ .pc → d.operands.rs = value d.instruction.operation.rs
  rd : d.instruction.operation.rd ≠ .pc → d.operands.rd = value d.instruction.operation.rd

/-! ## Registers -/

theorem afterWriteBack_of_writesBack {memWb : Option Accessed} {r : Reg} {w : Word} (h : WritesBack memWb r w)
    (value : Reg → Word) : afterWriteBack memWb value r = w := by
  obtain ⟨a, ha, writes, rd, rfl⟩ := h
  rw [Option.mem_def.mp ha]
  exact if_pos ⟨writes, rd⟩

theorem writesBack_of_changed {memWb : Option Accessed} {r : Reg} {value : Reg → Word}
    (changed : afterWriteBack memWb value r ≠ value r) : ∃ w, WritesBack memWb r w := by
  cases memWb with
  | none => exact absurd rfl changed
  | some a =>
    by_cases writes : a.instruction.regWrite ∧ a.instruction.rd = r
    · exact ⟨a.value, a, rfl, writes.1, writes.2, rfl⟩
    · exact absurd (if_neg writes) changed

/-! ## Flags -/

section

variable {s : Pipeline × Machine} (unstaged : Unstaged s)

include unstaged

/-- Setting the flags takes both the condition and the operation. -/
theorem step_flags_of_idEx {d : Decoded} (hd : s.1.latches.idEx = some d) :
    (step s).2.registers.flags =
      if d.instruction.cond.holds s.2.registers.flags ∧ d.instruction.operation.setsFlags then
        ((d.instruction.gate s.2.registers.flags).execute (forward s.1.latches (bypass s) d.operands)
          s.2.registers.flags).flags
      else s.2.registers.flags := by
  have gated : (executeNow s d).1.setFlags =
      (d.instruction.cond.holds s.2.registers.flags && d.instruction.operation.setsFlags) := rfl
  rw [step_flags unstaged, hd]
  simp only [gated, Bool.and_eq_true]
  rfl

theorem step_flags_of_setsFlags {f : Flags} (h : SetsFlags s f) : (step s).2.registers.flags = f := by
  obtain ⟨d, hd, passes, sets, rfl⟩ := h
  rw [step_flags_of_idEx unstaged hd]
  exact if_pos ⟨passes, sets⟩

theorem setsFlags_of_changed (changed : (step s).2.registers.flags ≠ s.2.registers.flags) : ∃ f, SetsFlags s f := by
  cases hd : s.1.latches.idEx with
  | none =>
    rw [step_flags unstaged, hd] at changed
    exact absurd rfl changed
  | some d =>
    rw [step_flags_of_idEx unstaged hd] at changed
    split at changed
    · rename_i both
      exact ⟨_, d, hd, both.1, both.2, rfl⟩
    · exact absurd rfl changed

end

/-! ## Operands -/

theorem reads_of_operands {d : Decoded} {value : Reg → Word} (h : d.operands = d.instruction.operands value) :
    d.Reads value := by
  constructor <;> intro other <;> rw [h] <;> exact if_neg other

theorem reads_step {s : Pipeline × Machine} {d : Decoded} (hd : d ∈ (step s).1.latches.idEx) :
    d.Reads (step s).2.registers.read := by
  obtain ⟨f, -, -, -, rfl⟩ := of_mem_step_idEx hd
  exact reads_of_operands rfl

/-! ## The edge -/

/-- What a clock edge from `s` to `t` writes. -/
structure ClockEdge (s t : Pipeline × Machine) : Prop where
  unstaged : Unstaged t
  registerChanged : ∀ r, t.2.registers.read r ≠ s.2.registers.read r → ∃ w, WritesBack s.1.latches.memWb r w
  registerWritten : ∀ r w, WritesBack s.1.latches.memWb r w → t.2.registers.read r = w
  flagsChanged : t.2.registers.flags ≠ s.2.registers.flags → ∃ f, SetsFlags s f
  flagsWritten : ∀ f, SetsFlags s f → t.2.registers.flags = f
  decoded : ∀ d ∈ t.1.latches.idEx, d.Reads t.2.registers.read

/-- Whatever the latches hold, only the instruction in MEM/WB writes a register and only the one
    in ID/EX the flags, and decode reads the registers as they leave them. -/
theorem one_writer_per_edge (s : Pipeline × Machine) (unstaged : Unstaged s) : ClockEdge s (step s) := by
  constructor
  case unstaged => exact step_unstaged s
  case registerChanged =>
    intro r changed
    rw [step_read unstaged] at changed
    exact writesBack_of_changed changed
  case registerWritten =>
    intro r w writes
    rw [step_read unstaged]
    exact afterWriteBack_of_writesBack writes _
  case flagsChanged => exact setsFlags_of_changed unstaged
  case flagsWritten => exact fun f => step_flags_of_setsFlags unstaged
  case decoded => exact fun d => reads_step

/-- `MOV R1, #5`, `MOV R0, #0`, `SUBS R1, R1, #5`, `ADDEQ R2, R1, R1`, after four cycles: the
    first is in MEM/WB, and the third sets the flags while the fourth reads R1. -/
def meetingInRegister : Pipeline × Machine :=
  step^[4] (.fresh, ⟨Board.empty.loadWords 0 [0xE3A01005, 0xE3A00000, 0xE2511005, 0x00812001], .zero⟩)

theorem one_writer_per_edge_meetingInRegister :
    Unstaged meetingInRegister ∧ (step meetingInRegister).2.registers.read 1 = 5 ∧
      (step meetingInRegister).2.registers.flags = ⟨false, true, true, false⟩ ∧
      (step meetingInRegister).1.latches.idEx.map (·.operands.rn) = some 5 ∧
      ∀ d ∈ (step meetingInRegister).1.latches.idEx, d.Reads (step meetingInRegister).2.registers.read := by
  have unstaged : Unstaged meetingInRegister := ⟨by decide +kernel, by decide +kernel⟩
  have edge := one_writer_per_edge meetingInRegister unstaged
  exact ⟨unstaged, edge.registerWritten 1 5 (by decide +kernel), edge.flagsWritten _ (by decide +kernel),
    by decide +kernel, edge.decoded⟩

/-! ## Any number of edges -/

theorem unstaged_iterate {s : Pipeline × Machine} (unstaged : Unstaged s) (n : Nat) : Unstaged (step^[n] s) :=
  Function.Iterate.rec Unstaged unstaged (fun t _ => step_unstaged t) n

theorem written_of_changed {s : Pipeline × Machine} (unstaged : Unstaged s) {n : Nat} {r : Reg}
    (changed : (step^[n] s).2.registers.read r ≠ s.2.registers.read r) :
    ∃ k < n, ∃ w, WritesBack (step^[k] s).1.latches.memWb r w := by
  induction n with
  | zero => exact absurd rfl changed
  | succ n ih =>
    by_cases before : (step^[n] s).2.registers.read r = s.2.registers.read r
    · rw [Function.iterate_succ_apply', ← before, step_read (unstaged_iterate unstaged n)] at changed
      exact ⟨n, Nat.lt_succ_self n, writesBack_of_changed changed⟩
    · obtain ⟨k, hk, written⟩ := ih before
      exact ⟨k, Nat.lt_succ_of_lt hk, written⟩

end Pipeline

end FiveStageArm
