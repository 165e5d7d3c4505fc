/-
  FiveStageArm.Proofs.Registers — what each write does to each read. At the clock edge a
  register takes the value `readForwarded` already gave.
-/

import FiveStageArm.SingleCycle

namespace FiveStageArm

namespace Registers

variable (s : Registers)

@[simp] theorem read_write (r q : Reg) (w : Word) : (s.write r w).read q = if r = q then w else s.read q := by
  by_cases h : r = q
  · subst h
    simp [write, read]
  · have hne : r.val ≠ q.val := fun h' => h (Fin.ext h')
    simp [write, read, h, Vector.getElem_set_ne, hne]

@[simp] theorem readForwarded_stageWrite (r q : Reg) (w : Word) :
    (s.stageWrite r w).readForwarded q = if r = q then w else s.read q := rfl

theorem readForwarded_of_unstaged (h : s.stagedWrite = none) (r : Reg) : s.readForwarded r = s.read r := by
  simp [readForwarded, h]

@[simp] theorem read_commit (r : Reg) : s.commit.read r = s.readForwarded r := by
  cases h : s.stagedWrite with
  | none => simp [commit, readForwarded, read, h]
  | some x =>
    obtain ⟨d, w⟩ := x
    simp only [commit, readForwarded, h]
    exact s.read_write d r w

end Registers

namespace SingleCycle

/-! ## Write-back -/

/-- R15 is the core's own `pc`, so no write-back reaches it. -/
theorem read_writeBack (s : Registers) (i : Instruction) (v : Word) (f : Flags) {r : Reg} (hr : r ≠ .pc) :
    (writeBack s i v f).read r = if i.regWrite ∧ i.rd = r then v else s.read r := by
  have after : (writeBack s i v f).read r = (if i.regWrite && i.rd != .pc then s.write i.rd v else s).read r := by
    unfold writeBack
    simp only []
    split <;> rfl
  rw [after]
  by_cases hw : i.regWrite
  · by_cases hd : i.rd = r
    · subst hd
      simp [hw, hr]
    · by_cases hp : i.rd = .pc
      · simp [hw, hp, Ne.symm hr]
      · simp [hw, hd, hp]
  · simp [hw]

theorem flags_writeBack (s : Registers) (i : Instruction) (v : Word) (f : Flags) :
    (writeBack s i v f).flags = if i.setFlags then f else s.flags := by
  unfold writeBack
  simp only []
  split
  · rfl
  · split <;> rfl

end SingleCycle

end FiveStageArm
