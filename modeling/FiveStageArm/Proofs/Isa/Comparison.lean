/-
  FiveStageArm.Proofs.Isa.Comparison — a compare and the conditions that are read off it. CMP
  subtracts and keeps only the flags: Z says that nothing is left, C that nothing was
  borrowed, and N and V differ exactly when the true difference is negative, since a result
  that does not fit has the wrong sign (`msb_sub_ne_ssubOverflow`).

  Proved: after a CMP that passed, the ten conditions that compare are the unsigned and the
  signed orders of its operands, whatever the flags were before (`compare_decides_order`).
-/

import FiveStageArm.Proofs.Isa.CarryChain
import FiveStageArm.Proofs.Isa.Ranges
import FiveStageArm.Isa.Execute

namespace FiveStageArm

/-! ## The sign of a difference -/

section Sign

variable {w : Nat} (x y : BitVec w)

/-- The sign of a difference that fits is the order of the operands. -/
theorem msb_sub_of_not_ssubOverflow (fits : x.ssubOverflow y = false) : (x - y).msb = x.slt y := by
  have exact : (x - y).toInt = x.toInt - y.toInt := BitVec.toInt_sub_of_not_ssubOverflow (by simp [fits])
  rw [BitVec.msb_eq_toInt, BitVec.slt_eq_decide, exact, decide_eq_decide]
  omega

/-- A difference that does not fit is one of operands of unlike signs, and its sign is wrong. -/
theorem msb_sub_of_ssubOverflow (overflows : x.ssubOverflow y = true) : (x - y).msb = !x.slt y := by
  have signs : x.msb = false ∧ y.msb = true ∧ (x - y).msb = true ∨
      x.msb = true ∧ y.msb = false ∧ (x - y).msb = false := by
    rw [BitVec.ssubOverflow_eq] at overflows
    simpa [and_assoc] using overflows
  rw [BitVec.slt_eq_decide]
  rcases signs with ⟨hx, hy, sign⟩ | ⟨hx, hy, sign⟩
  · rw [sign]
    rw [BitVec.msb_eq_toInt] at hx hy
    have : ¬x.toInt < y.toInt := by
      have := of_decide_eq_false hx
      have := of_decide_eq_true hy
      omega
    simp [this]
  · rw [sign]
    rw [BitVec.msb_eq_toInt] at hx hy
    have : x.toInt < y.toInt := by
      have := of_decide_eq_true hx
      have := of_decide_eq_false hy
      omega
    simp [this]

theorem msb_sub_ne_ssubOverflow : ((x - y).msb != x.ssubOverflow y) = x.slt y := by
  cases h : x.ssubOverflow y with
  | false => simp [msb_sub_of_not_ssubOverflow x y h]
  | true => simp [msb_sub_of_ssubOverflow x y h]

end Sign

/-! ## The flags of a compare -/

section Flags

variable (a b : Word)

theorem carry_difference : (addWithCarry a (~~~b) true).carry = decide (b ≤ a) := by
  rw [carry_addWithCarry]
  exact carry_not a.toBitVec b.toBitVec

theorem overflow_difference : (addWithCarry a (~~~b) true).overflow = a.toBitVec.ssubOverflow b.toBitVec := by
  rw [overflow_addWithCarry, value_difference, bit_not _ (by decide), BitVec.ssubOverflow_eq]
  show (a.toBitVec.msb == !b.toBitVec.msb && (a.toBitVec - b.toBitVec).msb != a.toBitVec.msb) = _
  cases a.toBitVec.msb <;> cases b.toBitVec.msb <;> cases (a.toBitVec - b.toBitVec).msb <;> rfl

/-- What a compare leaves, whatever was there before. -/
def compared : Flags :=
  ⟨(a.toBitVec - b.toBitVec).msb, a = b, b ≤ a, a.toBitVec.ssubOverflow b.toBitVec⟩

theorem newFlags_cmp (f : Flags) (carry shifterCarry : Bool) :
    Opcode.cmp.newFlags f (Opcode.cmp.apply a b carry) shifterCarry = compared a b := by
  have difference : Opcode.cmp.apply a b carry = addWithCarry a (~~~b) true := rfl
  have arithmetic (r : ArithResult) :
      Opcode.cmp.newFlags f r shifterCarry = ⟨bit r.value 31, r.value = 0, r.carry, r.overflow⟩ := rfl
  have nothingLeft : a - b = 0 ↔ a = b := by
    rw [← UInt32.toNat_inj, ← UInt32.toNat_inj, UInt32.toNat_sub, UInt32.toNat_zero]
    have := a.toNat_lt
    have := b.toNat_lt
    omega
  rw [difference, arithmetic, value_difference, carry_difference, overflow_difference]
  simp only [nothingLeft]
  rfl

theorem sign_compared : ((compared a b).n != (compared a b).v) = decide (signed a < signed b) := by
  rw [signed, signed, ← BitVec.slt_eq_decide]
  exact msb_sub_ne_ssubOverflow a.toBitVec b.toBitVec

end Flags

/-! ## Conditions -/

theorem execute_cmp {i : Instruction} {s : Bool} {rn rd : Reg} {operand : Operand2}
    (compare : i.operation = .dataProcessing .cmp s rn rd operand) (sets : i.setFlags = true) (ops : Operands)
    (f : Flags) : (i.execute ops f).flags = compared ops.rn (operand.value ops f.c).value := by
  simp only [Instruction.execute, compare, sets, if_true]
  exact newFlags_cmp ..

/-- The conditions on the flags `g` are the orders of the numbers `a` and `b`. -/
structure Decides (g : Flags) (a b : Word) : Prop where
  eq : Condition.eq.holds g ↔ a = b
  ne : Condition.ne.holds g ↔ a ≠ b
  cs : Condition.cs.holds g ↔ b.toNat ≤ a.toNat
  cc : Condition.cc.holds g ↔ a.toNat < b.toNat
  hi : Condition.hi.holds g ↔ b.toNat < a.toNat
  ls : Condition.ls.holds g ↔ a.toNat ≤ b.toNat
  ge : Condition.ge.holds g ↔ signed b ≤ signed a
  lt : Condition.lt.holds g ↔ signed a < signed b
  gt : Condition.gt.holds g ↔ signed b < signed a
  le : Condition.le.holds g ↔ signed a ≤ signed b

theorem decides_compared (a b : Word) : Decides (compared a b) a b := by
  have unsigned : a = b ↔ a.toNat = b.toNat := UInt32.toNat_inj.symm
  have signs : a = b ↔ signed a = signed b := by rw [signed, signed, BitVec.toInt_inj, UInt32.toBitVec_inj]
  have equal : (compared a b).z = true ↔ a = b := by simp [compared]
  have noBorrow : (compared a b).c = true ↔ b.toNat ≤ a.toNat := by simp [compared, UInt32.le_iff_toNat_le]
  have negative : ((compared a b).n != (compared a b).v) = true ↔ signed a < signed b := by simp [sign_compared]
  have notNegative : ((compared a b).n == (compared a b).v) = true ↔ signed b ≤ signed a := by
    rw [← Int.not_lt, ← negative]
    simp
  constructor
  case eq => exact equal
  case cs => exact noBorrow
  case ge => exact notNegative
  case lt => exact negative
  case ne => simp only [Condition.holds, Bool.not_eq_true', ← Bool.not_eq_true, equal]
  case cc =>
    simp only [Condition.holds, Bool.not_eq_true', ← Bool.not_eq_true, noBorrow]
    omega
  case hi =>
    simp only [Condition.holds, Bool.and_eq_true, Bool.not_eq_true', ← Bool.not_eq_true, noBorrow, equal, unsigned]
    omega
  case ls =>
    simp only [Condition.holds, Bool.or_eq_true, Bool.not_eq_true', ← Bool.not_eq_true, noBorrow, equal, unsigned]
    omega
  case gt =>
    simp only [Condition.holds, Bool.and_eq_true, Bool.not_eq_true', ← Bool.not_eq_true, notNegative, equal, signs]
    omega
  case le =>
    simp only [Condition.holds, Bool.or_eq_true, negative, equal, signs]
    omega

/-- After a CMP that passed, whatever the flags were, the conditions that compare decide the
    orders of its two operands. -/
theorem compare_decides_order {w : Word} {pc : Address} {f : Flags} {s : Bool} {rn rd : Reg} {operand : Operand2}
    (compare : (decode w pc).operation = .dataProcessing .cmp s rn rd operand) (passes : (decode w pc).cond.holds f)
    (ops : Operands) :
    Decides ((decodeGated w pc f).execute ops f).flags ops.rn (operand.value ops f.c).value := by
  have sets : (decodeGated w pc f).setFlags = true := by
    have inRange := Decode.inRange_operation w
    rw [show Decode.operation w = _ from compare] at inRange
    have test : s = true := inRange.1 rfl
    simp [Instruction.setFlags, decodeGated, Instruction.gate, passes, compare, Operation.setsFlags, test]
  have flags : ((decodeGated w pc f).execute ops f).flags = compared ops.rn (operand.value ops f.c).value :=
    execute_cmp (i := decodeGated w pc f) compare sets ops f
  rw [flags]
  exact decides_compared _ _

/-- CMPCS R1, R2 on the most negative number and 1, with every flag set before: the difference
    does not fit, so N is clear, and still the first is less. -/
theorem compare_decides_order_mostNegative :
    let w : Word := 0x21510002
    let ops : Operands := ⟨0x80000000, 1, 0, 0⟩
    let f : Flags := ⟨true, true, true, true⟩
    let g := ((decodeGated w 0 f).execute ops f).flags
    (decode w 0).operation = .dataProcessing .cmp true 1 0 (.shifted ⟨2, .lsl, 0⟩) ∧ (decode w 0).cond.holds f ∧
      g.n = false ∧ Condition.lt.holds g ∧ Condition.hi.holds g := by
  intro w ops f g
  have compare : (decode w 0).operation = .dataProcessing .cmp true 1 0 (.shifted ⟨2, .lsl, 0⟩) := by decide
  have passes : (decode w 0).cond.holds f := by decide
  have decides := compare_decides_order compare passes ops
  exact ⟨compare, passes, by decide, decides.lt.mpr (by decide), decides.hi.mpr (by decide)⟩

end FiveStageArm
