/-
  FiveStageArm.Proofs.Isa.Listing — the text of an instruction as it stands in a list among
  others, wherever they come from.

  Proved:
  - The text of an instruction is one line and is not empty (`oneLine_text`, `text_ne_empty`).
  - Instructions with one text write the same register, and so they do at different addresses
    (`writes_of_text`). Only branches are written with an address, and a branch that links
    writes LR wherever it goes.
-/

import FiveStageArm.Proofs.Isa.Assembly
import FiveStageArm.Proofs.Text.Lines

namespace FiveStageArm

/-! ## One line -/

section

open Text

theorem Reg.oneLine_name (r : Reg) : OneLine r.name := by
  have table : ∀ r : Reg, OneLine r.name := by decide +kernel
  exact table r

theorem ShiftKind.oneLine_name (k : ShiftKind) : OneLine k.name := by
  cases k <;> decide

theorem Condition.oneLine_suffixText (c : Condition) : OneLine c.suffixText := by
  cases c <;> decide

theorem Opcode.oneLine_name (op : Opcode) : OneLine op.name := by
  cases op <;> decide

theorem ShiftedRegister.oneLine_text (r : ShiftedRegister) : OneLine r.text := by
  unfold text
  refine oneLine_append.mpr ⟨r.rm.oneLine_name, oneLine_ite (by decide) (oneLine_ite ?_ (oneLine_ite ?_ (by decide)))⟩
  · simp only [oneLine_append]
    exact ⟨⟨⟨by decide, r.kind.oneLine_name⟩, by decide⟩, oneLine_decimal _⟩
  · simp only [oneLine_append]
    exact ⟨⟨by decide, r.kind.oneLine_name⟩, by decide⟩

theorem Operand2.oneLine_text (o : Operand2) : OneLine o.text := by
  cases o with
  | immediate imm rotate => exact oneLine_append.mpr ⟨by decide, oneLine_hex _ _⟩
  | shifted r => exact r.oneLine_text
  | shiftedBy rm kind rs =>
    simp only [text, oneLine_append]
    exact ⟨⟨⟨⟨rm.oneLine_name, by decide⟩, kind.oneLine_name⟩, by decide⟩, rs.oneLine_name⟩

theorem Offset.oneLine_text (up : Bool) (o : Offset) : OneLine (o.text up) := by
  have sign : OneLine (if up then "" else "-") := oneLine_ite (by decide) (by decide)
  cases o with
  | immediate imm =>
    refine oneLine_ite (by decide) ?_
    simp only [oneLine_append]
    exact ⟨⟨by decide, sign⟩, oneLine_hex _ _⟩
  | shifted r =>
    simp only [text, oneLine_append]
    exact ⟨⟨by decide, sign⟩, r.oneLine_text⟩

theorem Transfer.oneLine_text (t : Transfer) {cond : String} (h : OneLine cond) : OneLine (t.text cond) := by
  have offset := t.offset.oneLine_text t.up
  simp only [text, oneLine_append]
  refine ⟨⟨⟨⟨⟨⟨⟨oneLine_ite (by decide) (by decide), h⟩, oneLine_ite (by decide) (by decide)⟩, by decide⟩,
    t.rd.oneLine_name⟩, by decide⟩, t.rn.oneLine_name⟩, oneLine_ite ?_ ?_⟩
  · exact oneLine_append.mpr ⟨offset, by decide⟩
  · exact oneLine_append.mpr ⟨by decide, offset⟩

end

namespace Instruction

variable {i j : Instruction}

theorem oneLine_text (i : Instruction) : Text.OneLine i.text := by
  obtain ⟨raw, pc, cond, o, passed⟩ := i
  have suffix := cond.oneLine_suffixText
  cases o with
  | dataProcessing op s rn rd operand =>
    simp only [text, Text.oneLine_append]
    refine ⟨⟨⟨⟨⟨⟨op.oneLine_name, suffix⟩, Text.oneLine_ite (by decide) (by decide)⟩, by decide⟩, ?_⟩, ?_⟩,
      operand.oneLine_text⟩
    · exact Text.oneLine_ite (by decide) (Text.oneLine_append.mpr ⟨rd.oneLine_name, by decide⟩)
    · exact Text.oneLine_ite (by decide) (Text.oneLine_append.mpr ⟨rn.oneLine_name, by decide⟩)
  | multiply accumulate s rd rn rs rm =>
    simp only [text, Text.oneLine_append]
    refine ⟨⟨⟨⟨⟨⟨⟨⟨⟨Text.oneLine_ite (by decide) (by decide), suffix⟩, Text.oneLine_ite (by decide) (by decide)⟩,
      by decide⟩, rd.oneLine_name⟩, by decide⟩, rm.oneLine_name⟩, by decide⟩, rs.oneLine_name⟩, ?_⟩
    exact Text.oneLine_ite (Text.oneLine_append.mpr ⟨by decide, rn.oneLine_name⟩) (by decide)
  | transfer t => exact t.oneLine_text suffix
  | branch link offset =>
    simp only [text, Text.oneLine_append]
    exact ⟨⟨⟨⟨by decide, Text.oneLine_ite (by decide) (by decide)⟩, suffix⟩, by decide⟩, Text.oneLine_hex _ _⟩
  | coprocessor =>
    refine Text.oneLine_ite ?_ (Text.oneLine_append.mpr ⟨by decide, Text.oneLine_hex _ _⟩)
    simp only [Text.oneLine_append]
    exact ⟨⟨⟨by decide, suffix⟩, by decide⟩, Text.oneLine_hex _ _⟩
  | undefined => exact Text.oneLine_append.mpr ⟨by decide, Text.oneLine_hex _ _⟩

theorem text_ne_empty (i : Instruction) : i.text ≠ "" := by
  intro empty
  have kind : kindOf "".toList = i.operation.kind := empty ▸ kindOf_text i
  obtain ⟨raw, pc, cond, o, passed⟩ := i
  cases o with
  | dataProcessing op s rn rd operand =>
    have length := congrArg String.length empty
    simp only [text, String.append_assoc] at length
    rw [String.length_append, op.length_name] at length
    exact absurd length (by simp)
  | _ => cases kind

/-! ## The register written -/

/-- Only a branch is written with where it stands. -/
theorem text_at (fixed : i.operation.kind ≠ .branch) (pc : Address) : { i with pc := pc }.text = i.text := by
  obtain ⟨raw, _, cond, o, passed⟩ := i
  cases o with
  | branch link offset => exact absurd rfl fixed
  | _ => rfl

theorem writes_of_text (range : i.operation.InRange) (range' : j.operation.InRange) (h : i.text = j.text) :
    i.operation.writesRegister = j.operation.writesRegister ∧ (i.operation.writesRegister → i.rd = j.rd) := by
  have kind : i.operation.kind = j.operation.kind := by rw [← kindOf_text, h, kindOf_text]
  by_cases fixed : i.operation.kind = .branch
  · obtain ⟨raw, pc, cond, o, passed⟩ := i
    obtain ⟨raw', pc', cond', o', passed'⟩ := j
    cases o <;> cases fixed
    cases o' <;> cases kind
    simp only [text, String.append_assoc] at h
    obtain ⟨rfl, -, -⟩ := branch_inj h
    exact ⟨rfl, fun links => by cases links; rfl⟩
  · -- moved to one address and let pass, they are alike
    have moved : { i with pc := j.pc }.text = j.text := (text_at fixed j.pc).trans h
    have operations := (alike_of_text (i := { i with pc := j.pc }) (j := j) rfl range range' moved).1
    have alike : Alike { i with pc := j.pc, passed := true } { j with passed := true } :=
      ⟨rfl, operations, fun _ => rfl⟩
    have signals := alike.sameSignals
    exact ⟨signals.regWrite, fun writes => signals.rd writes⟩

end Instruction

end FiveStageArm
