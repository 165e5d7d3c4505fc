/-
  FiveStageArm.Proofs.Isa.Sources — an instruction looks only at the operands it reads.

  Proved: operand sets that agree in the roles an operation reads give the same outcome
  (`execute_congr`), the data of a store included (`storeValue_congr`). A load has a role
  for its destination but does not read it, so there the data to store may differ; it is
  never stored, and the access is the same (`access_storeValue_congr`). A branch that is taken neither loads nor stores
  (`accesses_of_branchTaken`), and a self-branch is always taken.
-/

import FiveStageArm.Machine

namespace FiveStageArm

/-- Two operand sets that agree in every role the operation reads. -/
structure Operation.SameSources (o : Operation) (a b : Operands) : Prop where
  rn : o.usesRn → a.rn = b.rn
  rm : o.usesRm → a.rm = b.rm
  rs : o.usesRs → a.rs = b.rs
  rd : o.usesRd → a.rd = b.rd

/-! ## What an outcome depends on -/

theorem Opcode.apply_congr (op : Opcode) {a a' : Word} (h : op.isMove = false → a = a') (b : Word) (c : Bool) :
    op.apply a b c = op.apply a' b c := by
  cases op <;> first | rfl | rw [h rfl]

theorem Operand2.value_congr {op : Opcode} {s : Bool} {rn rd : Reg} (o : Operand2) {a b : Operands}
    (h : (Operation.dataProcessing op s rn rd o).SameSources a b) (c : Bool) : o.value a c = o.value b c := by
  cases o with
  | immediate imm rotate => rfl
  | shifted r => simp only [value, h.rm rfl]
  | shiftedBy rm kind rs => simp only [value, h.rm rfl, h.rs rfl]

theorem Transfer.address_congr (t : Transfer) {a b : Operands} (h : (Operation.transfer t).SameSources a b) (c : Bool) :
    t.address a c = t.address b c := by
  have hn : a.rn = b.rn := h.rn rfl
  have ho : t.offset.value a c = t.offset.value b c := by
    obtain ⟨load, byte, pre, up, rn, rd, offset⟩ := t
    cases offset with
    | immediate imm => rfl
    | shifted r => simp only [Offset.value, h.rm rfl]
  simp only [address, hn, ho]

namespace Instruction

/-- The data to store apart, which `storeValue_congr` covers. -/
theorem execute_congr (i : Instruction) {a b : Operands} (h : i.operation.SameSources a b) (f : Flags) :
    i.execute a f = { i.execute b f with storeValue := (i.execute a f).storeValue } := by
  obtain ⟨raw, pc, cond, o, passed⟩ := i
  cases o with
  | dataProcessing op s rn rd operand =>
    have hv := operand.value_congr h f.c
    have hn : op.isMove = false → a.rn = b.rn := fun hm => h.rn (by simp [Operation.usesRn, hm])
    have hr := op.apply_congr hn
    simp only [execute, hv, hr]
  | multiply accumulate s rd rn rs rm =>
    have hn : (if accumulate then a.rn else 0) = (if accumulate then b.rn else 0) := by
      cases accumulate with
      | true => exact h.rn rfl
      | false => rfl
    simp only [execute, h.rm rfl, h.rs rfl, hn]
  | transfer t => simp only [execute, t.address_congr h f.c]
  | branch link offset => rfl
  | coprocessor => rfl
  | undefined => rfl

theorem storeValue_congr (i : Instruction) {a b : Operands} (h : i.operation.SameSources a b) (hs : i.operation.stores)
    (f : Flags) : (i.execute a f).storeValue = (i.execute b f).storeValue := by
  obtain ⟨raw, pc, cond, o, passed⟩ := i
  cases o with
  | transfer t => exact h.rd hs
  | _ => simp [Operation.stores] at hs

/-- Only a store passes its data on. -/
theorem access_storeValue_congr (i : Instruction) {n : Nat} (b : Bus n) (address : Address) {v v' : Word}
    (h : i.memWrite → v = v') : b.access i address v = b.access i address v' := by
  unfold Bus.access
  split
  · rfl
  split
  · rename_i writes
    rw [h writes]
  · rfl

/-- R15 is read off the instruction's address. -/
theorem operands_congr (i : Instruction) {value value' : Reg → Word} (h : ∀ r, r ≠ .pc → value r = value' r) :
    i.operands value = i.operands value' := by
  have role (r : Reg) : (if r = .pc then i.pc + 8 else value r) = if r = .pc then i.pc + 8 else value' r := by
    by_cases hr : r = .pc
    · simp [hr]
    · simp [hr, h r hr]
  simp only [operands, role]

/-! ## Branches -/

theorem branchTaken_of_isSelfBranch (i : Instruction) (h : i.isSelfBranch) (ops : Operands) (f : Flags) :
    (i.execute ops f).branchTaken := by
  obtain ⟨raw, pc, cond, o, passed⟩ := i
  cases o with
  | branch link offset =>
    simp only [isSelfBranch, Bool.and_eq_true] at h
    simp [execute, branch, Operation.branches, h.1]
  | _ => simp [isSelfBranch] at h

/-- A taken branch neither loads nor stores. -/
theorem accesses_of_branchTaken (i : Instruction) {ops : Operands} {f : Flags} (h : (i.execute ops f).branchTaken) :
    i.operation.loads = false ∧ i.operation.stores = false := by
  obtain ⟨raw, pc, cond, o, passed⟩ := i
  cases o with
  | transfer t => simp [execute] at h
  | _ => exact ⟨rfl, rfl⟩

end Instruction

/-! ## Registers by role -/

namespace Operation

theorem reads_rn {o : Operation} (hu : o.usesRn) (hp : o.rn ≠ .pc) : o.reads o.rn := by
  simp [reads, hu, hp]

theorem reads_rm {o : Operation} (hu : o.usesRm) (hp : o.rm ≠ .pc) : o.reads o.rm := by
  simp [reads, hu, hp]

theorem reads_rs {o : Operation} (hu : o.usesRs) (hp : o.rs ≠ .pc) : o.reads o.rs := by
  simp [reads, hu, hp]

theorem reads_rd {o : Operation} (hu : o.usesRd) (hp : o.rd ≠ .pc) : o.reads o.rd := by
  simp [reads, hu, hp]

end Operation

end FiveStageArm
