/-
  FiveStageArm.Proofs.Isa.Layout — instructions laid out as words. A layout lists an
  instruction's fields from bit 31 down, each with its width; `Fields.encode` packs the
  layout of a flat record into a word. Coprocessor and undefined instructions have none.

  Proved: a word is the packing of a layout exactly when each field is the slice of the
  word at the field's place (`slices_iff`), so a record is read off its word field by field
  (`Fields.encode_of_slices`, `Fields.slices_encode`). Below are the slices that the
  decoder takes.
-/

import FiveStageArm.Proofs.Bits
import FiveStageArm.Isa.Decode
import FiveStageArm.Isa.Fields

namespace FiveStageArm

/-! ## Numbers as lists of fields -/

/-- How many bits the fields take, each a width and a value. -/
@[simp] def span : List (Nat × Nat) → Nat
  | [] => 0
  | (width, _) :: rest => width + span rest

/-- The number with these fields, the highest first. -/
def pack : List (Nat × Nat) → Nat
  | [] => 0
  | (width, value) :: rest => (value % (1 <<< width)) <<< span rest + pack rest

/-- Each field is what `n` has at its place, when they are laid out from below bit `top`. -/
def Slices (n : Nat) : Nat → List (Nat × Nat) → Prop
  | _, [] => True
  | top, (width, value) :: rest =>
    value % (1 <<< width) = n >>> (top - width) % (1 <<< width) ∧ Slices n (top - width) rest

theorem pack_lt (fields : List (Nat × Nat)) : pack fields < 1 <<< span fields := by
  induction fields with
  | nil => decide
  | cons f rest ih =>
    obtain ⟨width, value⟩ := f
    have top : value % 2 ^ width + 1 ≤ 2 ^ width := Nat.mod_lt _ (Nat.two_pow_pos width)
    rw [pack, span]
    simp only [Nat.shiftLeft_eq, Nat.one_mul, Nat.pow_add] at ih ⊢
    calc value % 2 ^ width * 2 ^ span rest + pack rest
      _ < value % 2 ^ width * 2 ^ span rest + 2 ^ span rest := Nat.add_lt_add_left ih _
      _ = (value % 2 ^ width + 1) * 2 ^ span rest := (Nat.succ_mul _ _).symm
      _ ≤ 2 ^ width * 2 ^ span rest := Nat.mul_le_mul_right _ top

theorem slices_iff {n : Nat} {fields : List (Nat × Nat)} :
    Slices n (span fields) fields ↔ pack fields = n % (1 <<< span fields) := by
  induction fields with
  | nil => simp [Slices, pack, span, Nat.mod_one]
  | cons f rest ih =>
    obtain ⟨width, value⟩ := f
    have below := pack_lt rest
    rw [Slices, span, Nat.add_sub_cancel_left, ih, pack, Nat.add_comm width]
    simp only [Nat.shiftLeft_eq, Nat.one_mul, Nat.shiftRight_eq_div_pow, Nat.pow_add] at below ⊢
    -- the number is a quotient and a remainder by the lower fields' span, and so is the packing
    have parts : n % (2 ^ span rest * 2 ^ width) / 2 ^ span rest = value % 2 ^ width ∧
        n % (2 ^ span rest * 2 ^ width) % 2 ^ span rest = pack rest ↔
        pack rest + 2 ^ span rest * (value % 2 ^ width) = n % (2 ^ span rest * 2 ^ width) ∧
          pack rest < 2 ^ span rest :=
      Nat.div_mod_unique (Nat.two_pow_pos (span rest))
    rw [Nat.mod_mul_right_div_self, Nat.mod_mul_right_mod] at parts
    constructor
    · rintro ⟨high, low⟩
      rw [Nat.add_comm, Nat.mul_comm]
      exact (parts.mp ⟨high.symm, low.symm⟩).1
    · intro packed
      rw [Nat.add_comm, Nat.mul_comm] at packed
      obtain ⟨high, low⟩ := parts.mpr ⟨packed, below⟩
      exact ⟨high.symm, low.symm⟩

/-! ## The layout of an instruction -/

/-- Conditions, operations and shifts are declared in the order of their codes. -/
def Condition.code (c : Condition) : Nat := c.ctorIdx

def Opcode.code (o : Opcode) : Nat := o.ctorIdx

def ShiftKind.code (k : ShiftKind) : Nat := k.ctorIdx

theorem Condition.code_ofCode : ∀ k : Fin 16, (ofCode k).code = k := by decide

theorem Opcode.code_ofCode : ∀ k : Fin 16, (ofCode k).code = k := by decide

theorem ShiftKind.code_ofCode : ∀ k : Fin 4, (ofCode k).code = k := by decide

/-- The kinds of operation that have a layout. -/
def OperationClass.Assigned : OperationClass → Prop
  | .dataProcessing | .multiply | .loadStore | .branch => True
  | .coprocessor | .undefined => False

theorem OperationClass.assigned_iff {k : OperationClass} : k.Assigned ↔ ¬(k = .undefined ∨ k = .coprocessor) := by
  cases k <;> simp [Assigned]

namespace Fields

variable (f : Fields)

/-- Bits 11 to 0 of a data-processing operation. -/
def operandLayout : List (Nat × Nat) :=
  if f.immediateOperand then [(4, f.rotate.toNat / 2), (8, f.imm.toNat)]
  else if f.shiftByRegister then [(4, f.rs), (1, 0), (2, f.shiftKind.code), (1, 1), (4, f.rm)]
  else [(5, f.shiftAmount.toNat), (2, f.shiftKind.code), (1, 0), (4, f.rm)]

/-- Bits 11 to 0 of a load or store. -/
def offsetLayout : List (Nat × Nat) :=
  if f.immediateOperand then [(12, f.imm.toNat)]
  else [(5, f.shiftAmount.toNat), (2, f.shiftKind.code), (1, 0), (4, f.rm)]

/-- Bits 27 to 0. A load or store has a clear bit 21, and a branch holds its offset in words. -/
def operationLayout : List (Nat × Nat) :=
  match f.kind with
  | .dataProcessing =>
    (2, 0) :: (1, f.immediateOperand.toNat) :: (4, f.opcode.code) :: (1, f.setFlags.toNat) :: (4, f.rn) :: (4, f.rd) ::
      f.operandLayout
  | .multiply =>
    [(6, 0), (1, f.accumulate.toNat), (1, f.setFlags.toNat), (4, f.rd), (4, f.rn), (4, f.rs), (4, 9), (4, f.rm)]
  | .loadStore =>
    (2, 1) :: (1, (!f.immediateOperand).toNat) :: (1, f.preIndex.toNat) :: (1, f.addOffset.toNat) ::
      (1, f.byte.toNat) :: (1, 0) :: (1, f.memRead.toNat) :: (4, f.rn) :: (4, f.rd) :: f.offsetLayout
  | .branch => [(2, 2), (1, 1), (1, f.link.toNat), (24, f.offset.toNat / 4)]
  | .coprocessor | .undefined => []

def layout : List (Nat × Nat) := (4, f.cond.code) :: f.operationLayout

/-- The instruction as a word, from its fields alone: not the word it was decoded from, nor
    its text. -/
def encode : Word := UInt32.ofNat (pack f.layout)

@[simp] theorem span_operandLayout : span f.operandLayout = 12 := by
  unfold operandLayout
  cases f.immediateOperand with
  | true => rfl
  | false => cases f.shiftByRegister <;> rfl

@[simp] theorem span_offsetLayout : span f.offsetLayout = 12 := by
  unfold offsetLayout
  cases f.immediateOperand <;> rfl

variable {f}

theorem span_layout (assigned : f.kind.Assigned) : span f.layout = 32 := by
  unfold layout operationLayout
  cases hk : f.kind with
  | dataProcessing | multiply | loadStore | branch => simp
  | coprocessor | undefined =>
    rw [hk] at assigned
    exact assigned.elim

theorem encode_of_slices {w : Word} {fields : List (Nat × Nat)} (layout : f.layout = fields) (whole : span fields = 32)
    (h : Slices w.toNat 32 fields) : f.encode = w := by
  have full : w.toNat % (1 <<< 32) = w.toNat := Nat.mod_eq_of_lt w.toNat_lt
  rw [← whole, slices_iff, whole, full] at h
  rw [encode, layout, h, UInt32.ofNat_toNat]

theorem slices_encode (assigned : f.kind.Assigned) : Slices f.encode.toNat 32 f.layout := by
  have whole := span_layout assigned
  have small := pack_lt f.layout
  rw [whole] at small
  have exact : f.encode.toNat = pack f.layout := (UInt32.toNat_ofNat' ..).trans (Nat.mod_eq_of_lt small)
  rw [← whole, slices_iff, whole, exact, Nat.mod_eq_of_lt small]

end Fields

/-! ## The slices of a word -/

section Slices

variable (w : Word)

theorem nibble_slice (lo : Nat) : (nibble w lo).val % (1 <<< 4) = w.toNat >>> lo % (1 <<< 4) := by
  show w.toNat >>> lo % 16 % 16 = w.toNat >>> lo % 16
  rw [Nat.mod_mod]

variable {w}

theorem bit_iff_slice {i : Nat} {b : Bool} : bit w i = b ↔ b.toNat % (1 <<< 1) = w.toNat >>> i % (1 <<< 1) := by
  have one : w.toNat >>> i % (1 <<< 1) = (bit w i).toNat := by
    rw [bit_eq_testBit, Nat.toNat_testBit, Nat.shiftRight_eq_div_pow]
    rfl
  rw [one]
  cases bit w i <;> cases b <;> decide

/-- Bits 27 and 26 as one field. -/
theorem class_iff_slice {b c : Bool} :
    (bit w 27 = b ∧ bit w 26 = c) ↔ (2 * b.toNat + c.toNat) % (1 <<< 2) = w.toNat >>> 26 % (1 <<< 2) := by
  have high : bit w 27 = b ↔ b.toNat % 2 = w.toNat >>> 27 % 2 := bit_iff_slice
  have low : bit w 26 = c ↔ c.toNat % 2 = w.toNat >>> 26 % 2 := bit_iff_slice
  have hb := b.toNat_lt
  have hc := c.toNat_lt
  rw [high, low]
  show _ ↔ (2 * b.toNat + c.toNat) % 4 = w.toNat >>> 26 % 4
  omega

theorem toNat_bits (w : Word) (lo width : Word) (hl : lo.toNat < 32) (hw : width.toNat < 32) :
    (bits w lo width).toNat = w.toNat >>> lo.toNat % (1 <<< width.toNat) := by
  have mask : ((1 : Word) <<< width - 1).toNat = 1 <<< width.toNat - 1 := by
    have small : 1 <<< width.toNat < 2 ^ 32 := by
      rw [Nat.one_shiftLeft]
      exact Nat.pow_lt_pow_right (by decide) hw
    have pos : 0 < 1 <<< width.toNat := by
      rw [Nat.one_shiftLeft]
      exact Nat.two_pow_pos _
    rw [UInt32.toNat_sub, UInt32.toNat_shiftLeft, Nat.mod_eq_of_lt hw, UInt32.toNat_one, Nat.mod_eq_of_lt small]
    generalize 1 <<< width.toNat = m at small pos
    omega
  rw [bits, UInt32.toNat_and, mask, UInt32.toNat_shiftRight, Nat.mod_eq_of_lt hl, Nat.one_shiftLeft,
    Nat.and_two_pow_sub_one_eq_mod]

theorem bits_iff_slice (w lo width : Word) {v : Word} (hl : lo.toNat < 32) (hw : width.toNat < 32)
    (hv : v.toNat < 1 <<< width.toNat) :
    bits w lo width = v ↔ v.toNat % (1 <<< width.toNat) = w.toNat >>> lo.toNat % (1 <<< width.toNat) := by
  rw [← UInt32.toNat_inj, toNat_bits w lo width hl hw, Nat.mod_eq_of_lt hv]
  exact eq_comm

variable (w)

theorem bits_slice (lo width : Word) (hl : lo.toNat < 32) (hw : width.toNat < 32) :
    (bits w lo width).toNat % (1 <<< width.toNat) = w.toNat >>> lo.toNat % (1 <<< width.toNat) := by
  rw [toNat_bits w lo width hl hw, Nat.mod_mod]

theorem cond_slice : (Condition.ofCode (nibble w 28)).code % (1 <<< 4) = w.toNat >>> 28 % (1 <<< 4) := by
  rw [Condition.code_ofCode, nibble_slice]

theorem opcode_slice : (Opcode.ofCode (nibble w 21)).code % (1 <<< 4) = w.toNat >>> 21 % (1 <<< 4) := by
  rw [Opcode.code_ofCode, nibble_slice]

theorem shiftKind_slice : (Decode.shiftKind w).code % (1 <<< 2) = w.toNat >>> 5 % (1 <<< 2) := by
  rw [Decode.shiftKind, ShiftKind.code_ofCode]
  show w.toNat >>> 5 % 4 % 4 = w.toNat >>> 5 % 4
  rw [Nat.mod_mod]

/-- The rotation of an immediate is twice what the word says. -/
theorem rotate_slice : (bits w 8 4 * 2).toNat / 2 % (1 <<< 4) = w.toNat >>> 8 % (1 <<< 4) := by
  have field : (bits w 8 4).toNat = w.toNat >>> 8 % 16 := toNat_bits w 8 4 (by decide) (by decide)
  have two : (2 : Word).toNat = 2 := rfl
  rw [UInt32.toNat_mul, field, two]
  show _ % 16 = w.toNat >>> 8 % 16
  omega

theorem signExtend_low (v : Word) : (signExtend v 24).toNat % (1 <<< 24) = v.toNat % (1 <<< 24) := by
  unfold signExtend
  split
  · rfl
  · have above : (~~~((1 : Word) <<< 24 - 1)).toNat % 2 ^ 24 = 0 := by decide
    show (v ||| ~~~((1 : Word) <<< 24 - 1)).toNat % 2 ^ 24 = v.toNat % 2 ^ 24
    rw [UInt32.toNat_or, Nat.or_mod_two_pow, above, Nat.or_zero]

/-- The offset of a branch in bytes is four times what the word says, with its sign. -/
theorem offset_slice : (signExtend (bits w 0 24) 24 * 4).toNat / 4 % (1 <<< 24) = w.toNat >>> 0 % (1 <<< 24) := by
  have four : (4 : Word).toNat = 4 := rfl
  have low : (signExtend (bits w 0 24) 24).toNat % 0x1000000 = w.toNat >>> 0 % 0x1000000 :=
    (signExtend_low _).trans (bits_slice w 0 24 (by decide) (by decide))
  rw [UInt32.toNat_mul, four]
  show _ % 0x1000000 = w.toNat >>> 0 % 0x1000000
  omega

end Slices

end FiveStageArm
