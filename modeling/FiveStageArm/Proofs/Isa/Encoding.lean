/-
  FiveStageArm.Proofs.Isa.Encoding — the decoder against the encoding. Two layouts share
  the bits of data processing with the multiplier, and each class leaves out words that
  this machine has no operation for; `Decode.Decodes` says which word goes where.

  One bit of a test and one of a load or store mean nothing: a test sets the flags whatever
  bit 20 says, and no transfer writes its base back, so bit 21 is not looked at. The
  canonical word of an instruction has the first set and the second clear.

  Proved, for every word: it decodes as its canonical word does, and the fields of a
  decoded instruction encode to that word; the words without an operation are those that no
  layout has room for, and they ask for nothing (`decode_faithful`).
-/

import FiveStageArm.Proofs.Isa.Control
import FiveStageArm.Proofs.Isa.Layout

namespace FiveStageArm

/-! ## Which operation a word has -/

namespace Decode

/-- Words of the first three classes that this machine has no operation for: halfword transfers
    and swaps, offsets shifted by a register, block transfers. -/
def Hole (w : Word) : Prop :=
  (bit w 27 = false ∧ bit w 26 = false ∧ bit w 25 = false ∧ bit w 7 = true ∧ bit w 4 = true ∧ isMultiply w = false) ∨
    (bit w 27 = false ∧ bit w 26 = true ∧ bit w 25 = true ∧ bit w 4 = true) ∨
    (bit w 27 = true ∧ bit w 26 = false ∧ bit w 25 = false)

/-- A hole, or in the coprocessor space. -/
def Unassigned (w : Word) : Prop := Hole w ∨ (bit w 27 = true ∧ bit w 26 = true)

instance (w : Word) : Decidable (Hole w) := inferInstanceAs (Decidable (_ ∨ _))

instance (w : Word) : Decidable (Unassigned w) := inferInstanceAs (Decidable (_ ∨ _))

/-- What a word is decoded as, by its bits. -/
inductive Decodes (w : Word) : Operation → Prop where
  | multiply (high : bits w 22 6 = 0) (low : bits w 4 4 = 9) : Decodes w (multiply w)
  | dataProcessing (b27 : bit w 27 = false) (b26 : bit w 26 = false) (multiply : isMultiply w = false)
      (operand : bit w 25 = true ∨ bit w 4 = false ∨ bit w 7 = false) : Decodes w (dataProcessing w)
  | transfer (b27 : bit w 27 = false) (b26 : bit w 26 = true) (offset : bit w 25 = false ∨ bit w 4 = false) :
      Decodes w (transfer w)
  | branch (b27 : bit w 27 = true) (b26 : bit w 26 = false) (b25 : bit w 25 = true) : Decodes w (branch w)
  | undefined (hole : Hole w) : Decodes w .undefined
  | coprocessor (b27 : bit w 27 = true) (b26 : bit w 26 = true) : Decodes w .coprocessor

theorem decodes (w : Word) : Decodes w (operation w) := by
  unfold operation
  cases b27 : bit w 27 with
  | false =>
    cases b26 : bit w 26 with
    | false =>
      simp only []
      by_cases mul : isMultiply w = true
      · rw [if_pos mul]
        simp only [isMultiply, Bool.and_eq_true, beq_iff_eq] at mul
        exact .multiply mul.1 mul.2
      · rw [if_neg mul]
        rw [Bool.not_eq_true] at mul
        by_cases hole : (!bit w 25 && bit w 4 && bit w 7) = true
        · rw [if_pos hole]
          simp only [Bool.and_eq_true, Bool.not_eq_true'] at hole
          exact .undefined (.inl ⟨b27, b26, hole.1.1, hole.2, hole.1.2, mul⟩)
        · rw [if_neg hole]
          refine .dataProcessing b27 b26 mul ?_
          revert hole
          cases bit w 25 <;> cases bit w 4 <;> cases bit w 7 <;> simp
    | true =>
      simp only []
      by_cases hole : (bit w 25 && bit w 4) = true
      · rw [if_pos hole]
        rw [Bool.and_eq_true] at hole
        exact .undefined (.inr (.inl ⟨b27, b26, hole⟩))
      · rw [if_neg hole]
        refine .transfer b27 b26 ?_
        revert hole
        cases bit w 25 <;> cases bit w 4 <;> simp
  | true =>
    cases b26 : bit w 26 with
    | false =>
      simp only []
      by_cases b25 : bit w 25 = true
      · rw [if_pos b25]
        exact .branch b27 b26 b25
      · rw [if_neg b25]
        exact .undefined (.inr (.inr ⟨b27, b26, Bool.eq_false_iff.mpr b25⟩))
    | true => exact .coprocessor b27 b26

theorem isMultiply_of_slices {w : Word} (high : bits w 22 6 = 0) (low : bits w 4 4 = 9) : isMultiply w = true := by
  rw [isMultiply, high, low]
  rfl

/-- The multiplier's words have clear bits 27 and 26. -/
theorem class_of_multiply {w : Word} (high : bits w 22 6 = 0) : bit w 27 = false ∧ bit w 26 = false := by
  have slice : 0 % 64 = w.toNat >>> 22 % 64 := (bits_iff_slice w 22 6 (by decide) (by decide) (by decide)).mp high
  apply class_iff_slice.mpr
  show 0 % 4 = w.toNat >>> 26 % 4
  omega

/-- The bits leave no choice. -/
theorem Decodes.operation_eq {w : Word} {o : Operation} (h : Decodes w o) : operation w = o := by
  unfold operation
  cases h with
  | multiply high low =>
    obtain ⟨b27, b26⟩ := class_of_multiply high
    have mul := isMultiply_of_slices high low
    simp only [b27, b26, if_pos mul]
  | dataProcessing b27 b26 mul operand =>
    have inside : ¬(!bit w 25 && bit w 4 && bit w 7) = true := by
      rcases operand with b25 | b4 | b7
      · simp [b25]
      · simp [b4]
      · simp [b7]
    simp only [b27, b26, if_neg inside, mul]
    rfl
  | transfer b27 b26 offset =>
    have inside : ¬(bit w 25 && bit w 4) = true := by
      rcases offset with b25 | b4
      · simp [b25]
      · simp [b4]
    simp only [b27, b26, if_neg inside]
  | branch b27 b26 b25 => simp only [b27, b26, if_pos b25]
  | undefined hole =>
    rcases hole with ⟨b27, b26, b25, b7, b4, mul⟩ | ⟨b27, b26, b25, b4⟩ | ⟨b27, b26, b25⟩
    · simp [b27, b26, b25, b7, b4, mul]
    · simp [b27, b26, b25, b4]
    · simp [b27, b26, b25]
  | coprocessor b27 b26 => simp only [b27, b26]

/-- An operation has a layout exactly when its word is assigned one. -/
theorem Decodes.assigned_iff {w : Word} {o : Operation} (h : Decodes w o) : o.kind.Assigned ↔ ¬Unassigned w := by
  unfold Unassigned Hole
  cases h with
  | multiply high low =>
    obtain ⟨b27, b26⟩ := class_of_multiply high
    have mul := isMultiply_of_slices high low
    exact iff_of_true trivial (by simp [b27, b26, mul])
  | dataProcessing b27 b26 mul operand =>
    refine iff_of_true trivial ?_
    rcases operand with b25 | b4 | b7
    · simp [b27, b26, b25]
    · simp [b27, b26, b4]
    · simp [b27, b26, b7]
  | transfer b27 b26 offset =>
    refine iff_of_true trivial ?_
    rcases offset with b25 | b4
    · simp [b27, b26, b25]
    · simp [b27, b26, b4]
  | branch b27 b26 b25 => exact iff_of_true trivial (by simp [b27, b26, b25])
  | undefined hole => exact iff_of_false id (not_not_intro (.inl hole))
  | coprocessor b27 b26 => exact iff_of_false id (by simp [b27, b26])

end Decode

/-- No layout makes an unassigned word. -/
theorem Fields.not_unassigned_encode {f : Fields} (assigned : f.kind.Assigned) : ¬Decode.Unassigned f.encode := by
  have slices := slices_encode assigned
  generalize f.encode = w at slices
  unfold layout operationLayout at slices
  unfold Decode.Unassigned Decode.Hole
  cases hk : f.kind with
  | dataProcessing =>
    simp only [hk] at slices
    obtain ⟨-, top, immediate, -, -, -, -, operand⟩ := slices
    obtain ⟨b27, b26⟩ : bit w 27 = false ∧ bit w 26 = false := class_iff_slice.mpr top
    have b25 : bit w 25 = f.immediateOperand := bit_iff_slice.mpr immediate
    unfold operandLayout at operand
    cases himm : f.immediateOperand with
    | true => simp [b27, b26, b25, himm]
    | false =>
      rw [himm] at operand
      cases hreg : f.shiftByRegister with
      | true =>
        rw [hreg] at operand
        obtain ⟨-, low, -⟩ := operand
        have b7 : bit w 7 = false := bit_iff_slice.mpr low
        simp [b27, b26, b7]
      | false =>
        rw [hreg] at operand
        obtain ⟨-, -, low, -⟩ := operand
        have b4 : bit w 4 = false := bit_iff_slice.mpr low
        simp [b27, b26, b4]
  | multiply =>
    simp only [hk] at slices
    obtain ⟨-, top, -, -, -, -, -, low, -⟩ := slices
    have high : bits w 22 6 = 0 := (bits_iff_slice w 22 6 (by decide) (by decide) (by decide)).mpr top
    have nine : bits w 4 4 = 9 := (bits_iff_slice w 4 4 (by decide) (by decide) (by decide)).mpr low
    obtain ⟨b27, b26⟩ := Decode.class_of_multiply high
    simp [b27, b26, Decode.isMultiply_of_slices high nine]
  | loadStore =>
    simp only [hk] at slices
    obtain ⟨-, top, register, -, -, -, -, -, -, -, offset⟩ := slices
    obtain ⟨b27, b26⟩ : bit w 27 = false ∧ bit w 26 = true := class_iff_slice.mpr top
    have b25 : bit w 25 = !f.immediateOperand := bit_iff_slice.mpr register
    unfold offsetLayout at offset
    cases himm : f.immediateOperand with
    | true => simp [b27, b26, b25, himm]
    | false =>
      rw [himm] at offset
      obtain ⟨-, -, low, -⟩ := offset
      have b4 : bit w 4 = false := bit_iff_slice.mpr low
      simp [b27, b26, b4]
  | branch =>
    simp only [hk] at slices
    obtain ⟨-, top, one, -⟩ := slices
    obtain ⟨b27, b26⟩ : bit w 27 = true ∧ bit w 26 = false := class_iff_slice.mpr top
    have b25 : bit w 25 = true := bit_iff_slice.mpr one
    simp [b27, b26, b25]
  | coprocessor | undefined =>
    rw [hk] at assigned
    exact assigned.elim

/-! ## Encoding a decoded instruction -/

section Encode

variable (raw : Word) (pc : Address)

theorem layout_dataProcessing (c : Condition) (op : Opcode) (s : Bool) (rn rd : Reg) (operand : Operand2) :
    (Instruction.fields ⟨raw, pc, c, .dataProcessing op s rn rd operand, true⟩).layout =
      match operand with
      | .immediate imm rotate =>
        [(4, c.code), (2, 0), (1, 1), (4, op.code), (1, s.toNat), (4, rn), (4, rd), (4, rotate.toNat / 2),
          (8, imm.toNat)]
      | .shifted r =>
        [(4, c.code), (2, 0), (1, 0), (4, op.code), (1, s.toNat), (4, rn), (4, rd), (5, r.amount.toNat),
          (2, r.kind.code), (1, 0), (4, r.rm)]
      | .shiftedBy rm kind rs =>
        [(4, c.code), (2, 0), (1, 0), (4, op.code), (1, s.toNat), (4, rn), (4, rd), (4, rs), (1, 0), (2, kind.code),
          (1, 1), (4, rm)] := by
  cases operand <;> rfl

theorem layout_transfer (c : Condition) (t : Transfer) :
    (Instruction.fields ⟨raw, pc, c, .transfer t, true⟩).layout =
      match t.offset with
      | .immediate imm =>
        [(4, c.code), (2, 1), (1, 0), (1, t.pre.toNat), (1, t.up.toNat), (1, t.byte.toNat), (1, 0), (1, t.load.toNat),
          (4, t.rn), (4, t.rd), (12, imm.toNat)]
      | .shifted r =>
        [(4, c.code), (2, 1), (1, 1), (1, t.pre.toNat), (1, t.up.toNat), (1, t.byte.toNat), (1, 0), (1, t.load.toNat),
          (4, t.rn), (4, t.rd), (5, r.amount.toNat), (2, r.kind.code), (1, 0), (4, r.rm)] := by
  obtain ⟨load, byte, pre, up, rn, rd, offset⟩ := t
  cases offset <;> rfl

variable {w : Word}

theorem encode_dataProcessing (b27 : bit w 27 = false) (b26 : bit w 26 = false)
    (operand : bit w 25 = true ∨ bit w 4 = false ∨ bit w 7 = false)
    (flags : bit w 20 = (bit w 20 || (Opcode.ofCode (nibble w 21)).isTest)) :
    (Instruction.fields ⟨raw, pc, .ofCode (nibble w 28), Decode.dataProcessing w, true⟩).encode = w := by
  have top := class_iff_slice.mp ⟨b27, b26⟩
  have s := bit_iff_slice.mp flags
  have rn := nibble_slice w 16
  have rd := nibble_slice w 12
  have rm := nibble_slice w 0
  unfold Decode.dataProcessing Decode.operand2
  cases b25 : bit w 25 with
  | true =>
    simp only [↓reduceIte]
    have immediate := bit_iff_slice.mp b25
    have imm := bits_slice w 0 8 (by decide) (by decide)
    exact Fields.encode_of_slices (layout_dataProcessing ..) (by simp)
      ⟨cond_slice w, top, immediate, opcode_slice w, s, rn, rd, rotate_slice w, imm, trivial⟩
  | false =>
    have register := bit_iff_slice.mp b25
    cases b4 : bit w 4 with
    | true =>
      have rs := nibble_slice w 8
      have b7 : bit w 7 = false := by simpa [b25, b4] using operand
      simp only [Bool.false_eq_true, ↓reduceIte]
      exact Fields.encode_of_slices (layout_dataProcessing ..) (by simp)
        ⟨cond_slice w, top, register, opcode_slice w, s, rn, rd, rs, bit_iff_slice.mp b7, shiftKind_slice w,
          bit_iff_slice.mp b4, rm, trivial⟩
    | false =>
      have amount := bits_slice w 7 5 (by decide) (by decide)
      simp only [Bool.false_eq_true, ↓reduceIte]
      exact Fields.encode_of_slices (layout_dataProcessing ..) (by simp)
        ⟨cond_slice w, top, register, opcode_slice w, s, rn, rd, amount, shiftKind_slice w, bit_iff_slice.mp b4, rm,
          trivial⟩

theorem encode_multiply (high : bits w 22 6 = 0) (low : bits w 4 4 = 9) :
    (Instruction.fields ⟨raw, pc, .ofCode (nibble w 28), Decode.multiply w, true⟩).encode = w := by
  have top := (bits_iff_slice w 22 6 (by decide) (by decide) (by decide)).mp high
  have nine := (bits_iff_slice w 4 4 (by decide) (by decide) (by decide)).mp low
  have accumulate := bit_iff_slice.mp (rfl : bit w 21 = _)
  have s := bit_iff_slice.mp (rfl : bit w 20 = _)
  exact Fields.encode_of_slices rfl rfl
    ⟨cond_slice w, top, accumulate, s, nibble_slice w 16, nibble_slice w 12, nibble_slice w 8, nine, nibble_slice w 0,
      trivial⟩

theorem encode_transfer (b27 : bit w 27 = false) (b26 : bit w 26 = true) (offset : bit w 25 = false ∨ bit w 4 = false)
    (b21 : bit w 21 = false) :
    (Instruction.fields ⟨raw, pc, .ofCode (nibble w 28), Decode.transfer w, true⟩).encode = w := by
  have top := class_iff_slice.mp ⟨b27, b26⟩
  have pre := bit_iff_slice.mp (rfl : bit w 24 = _)
  have up := bit_iff_slice.mp (rfl : bit w 23 = _)
  have byte := bit_iff_slice.mp (rfl : bit w 22 = _)
  have writeBack := bit_iff_slice.mp b21
  have load := bit_iff_slice.mp (rfl : bit w 20 = _)
  have rn := nibble_slice w 16
  have rd := nibble_slice w 12
  unfold Decode.transfer
  cases b25 : bit w 25 with
  | true =>
    simp only [↓reduceIte]
    have b4 : bit w 4 = false := by simpa [b25] using offset
    have amount := bits_slice w 7 5 (by decide) (by decide)
    exact Fields.encode_of_slices (layout_transfer ..) (by simp)
      ⟨cond_slice w, top, bit_iff_slice.mp b25, pre, up, byte, writeBack, load, rn, rd, amount, shiftKind_slice w,
        bit_iff_slice.mp b4, nibble_slice w 0, trivial⟩
  | false =>
    simp only [Bool.false_eq_true, ↓reduceIte]
    have imm := bits_slice w 0 12 (by decide) (by decide)
    exact Fields.encode_of_slices (layout_transfer ..) (by simp)
      ⟨cond_slice w, top, bit_iff_slice.mp b25, pre, up, byte, writeBack, load, rn, rd, imm, trivial⟩

theorem encode_branch (b27 : bit w 27 = true) (b26 : bit w 26 = false) (b25 : bit w 25 = true) :
    (Instruction.fields ⟨raw, pc, .ofCode (nibble w 28), Decode.branch w, true⟩).encode = w := by
  have top := class_iff_slice.mp ⟨b27, b26⟩
  have link := bit_iff_slice.mp (rfl : bit w 24 = _)
  exact Fields.encode_of_slices rfl rfl
    ⟨cond_slice w, top, bit_iff_slice.mp b25, link, offset_slice w, trivial⟩

end Encode

/-! ## Bits that mean nothing -/

namespace Decode

/-- The words have the same bits, but perhaps for the `k`-th. -/
def SameBut (k : Option Nat) (w v : Word) : Prop := ∀ i, k ≠ some i → bit v i = bit w i

/-- The bit of its word that an operation does not depend on. -/
def ignored : Operation → Option Nat
  | .dataProcessing op _ _ _ _ => if op.isTest then some 20 else none
  | .transfer _ => some 21
  | _ => none

theorem ignored_lt {o : Operation} {k : Nat} (h : ignored o = some k) : k < 28 := by
  unfold ignored at h
  split at h
  · split at h
    · cases h
      decide
    · cases h
  · cases h
    decide
  · cases h

/-- The word with its ignored bit as the operation takes it: a test sets the flags, a transfer
    does not write its base back. -/
def canonical (w : Word) : Word :=
  match operation w with
  | .dataProcessing op _ _ _ _ => if op.isTest then w ||| 0x100000 else w
  | .transfer _ => w &&& ~~~0x200000
  | _ => w

namespace SameBut

variable {w v : Word} {k : Nat}

theorem eq (h : SameBut none w v) : v = w := eq_of_bit fun i _ => h i (Option.some_ne_none i).symm

theorem bit_eq (h : SameBut (some k) w v) {i : Nat} (away : i ≠ k) : bit v i = bit w i :=
  h i fun same => away (Option.some.inj same).symm

theorem slice_eq (h : SameBut (some k) w v) (lo width : Nat) (away : k < lo ∨ lo + width ≤ k) :
    v.toNat >>> lo % (1 <<< width) = w.toNat >>> lo % (1 <<< width) := by
  rw [Nat.one_shiftLeft]
  refine Nat.eq_of_testBit_eq fun i => ?_
  rw [Nat.testBit_mod_two_pow, Nat.testBit_mod_two_pow, Nat.testBit_shiftRight, Nat.testBit_shiftRight]
  by_cases inside : i < width
  · have same : bit v (lo + i) = bit w (lo + i) := h.bit_eq (by omega)
    rw [← bit_eq_testBit, ← bit_eq_testBit, same]
  · simp [inside]

theorem nibble_eq (h : SameBut (some k) w v) (lo : Nat) (away : k < lo ∨ lo + 4 ≤ k) : nibble v lo = nibble w lo :=
  Fin.ext (h.slice_eq lo 4 away)

theorem bits_eq (h : SameBut (some k) w v) (lo width : Word) (hl : lo.toNat < 32) (hw : width.toNat < 32)
    (away : k < lo.toNat ∨ lo.toNat + width.toNat ≤ k) : bits v lo width = bits w lo width := by
  rw [← UInt32.toNat_inj, toNat_bits v lo width hl hw, toNat_bits w lo width hl hw, h.slice_eq _ _ away]

theorem shiftedRegister_eq (h : SameBut (some k) w v) (above : 12 ≤ k) : shiftedRegister v = shiftedRegister w := by
  have rm := h.nibble_eq 0 (.inr (by omega))
  have kind : shiftKind v = shiftKind w :=
    congrArg ShiftKind.ofCode (Fin.ext (h.slice_eq 5 2 (by omega)))
  have amount := h.bits_eq 7 5 (by decide) (by decide) (.inr (Nat.le_trans (by decide) above))
  unfold shiftedRegister
  rw [rm, kind, amount]

theorem operand2_eq (h : SameBut (some k) w v) (above : 12 ≤ k) (below : k < 25) : operand2 v = operand2 w := by
  have b25 := h.bit_eq (i := 25) (by omega)
  have b4 := h.bit_eq (i := 4) (by omega)
  have imm := h.bits_eq 0 8 (by decide) (by decide) (.inr (Nat.le_trans (by decide) above))
  have rotate := h.bits_eq 8 4 (by decide) (by decide) (.inr (Nat.le_trans (by decide) above))
  have rs := h.nibble_eq 8 (.inr (by omega))
  have shifted := h.shiftedRegister_eq above
  have kind : shiftKind v = shiftKind w := congrArg ShiftedRegister.kind shifted
  have rm : nibble v 0 = nibble w 0 := congrArg ShiftedRegister.rm shifted
  unfold operand2
  rw [b25, b4, imm, rotate, rs, shifted, kind, rm]

theorem isMultiply_eq (h : SameBut (some k) w v) (above : 12 ≤ k) (below : k < 22) : isMultiply v = isMultiply w := by
  have high := h.bits_eq 22 6 (by decide) (by decide) (.inl below)
  have low := h.bits_eq 4 4 (by decide) (by decide) (.inr (Nat.le_trans (by decide) above))
  unfold isMultiply
  rw [high, low]

theorem dataProcessing_eq (h : SameBut (some 20) w v) (test : (Opcode.ofCode (nibble w 21)).isTest = true) :
    dataProcessing v = dataProcessing w := by
  have rn := h.nibble_eq 16 (.inr (by decide))
  have rd := h.nibble_eq 12 (.inr (by decide))
  have op := h.nibble_eq 21 (.inl (by decide))
  have operand := h.operand2_eq (by decide) (by decide)
  unfold dataProcessing
  simp only [rn, rd, op, operand, test, Bool.or_true]

theorem transfer_eq (h : SameBut (some 21) w v) : transfer v = transfer w := by
  have load := h.bit_eq (i := 20) (by decide)
  have byte := h.bit_eq (i := 22) (by decide)
  have pre := h.bit_eq (i := 24) (by decide)
  have up := h.bit_eq (i := 23) (by decide)
  have b25 := h.bit_eq (i := 25) (by decide)
  have rn := h.nibble_eq 16 (.inr (by decide))
  have rd := h.nibble_eq 12 (.inr (by decide))
  have shifted := h.shiftedRegister_eq (by decide)
  have imm := h.bits_eq 0 12 (by decide) (by decide) (.inr (by decide))
  unfold transfer
  rw [load, byte, pre, up, b25, rn, rd, shifted, imm]

/-- Changing the ignored bit leaves both the class of the word and its fields. -/
theorem operation_eq (h : SameBut (ignored (operation w)) w v) : operation v = operation w := by
  cases hk : ignored (operation w) with
  | none =>
    rw [hk] at h
    rw [h.eq]
  | some k =>
    rw [hk] at h
    have decoded := decodes w
    generalize operation w = o at hk decoded ⊢
    -- no bit that chooses among the operations is 20 or 21, so both words go the same way
    cases decoded with
    | dataProcessing b27 b26 mul operand =>
      change (if (Opcode.ofCode (nibble w 21)).isTest then some 20 else none) = some k at hk
      by_cases test : (Opcode.ofCode (nibble w 21)).isTest = true
      · rw [if_pos test] at hk
        cases hk
        rw [← h.dataProcessing_eq test]
        apply Decodes.operation_eq
        refine .dataProcessing ?_ ?_ ?_ ?_
        · rw [h.bit_eq (by decide), b27]
        · rw [h.bit_eq (by decide), b26]
        · rw [h.isMultiply_eq (by decide) (by decide), mul]
        · rw [h.bit_eq (by decide), h.bit_eq (by decide), h.bit_eq (by decide)]
          exact operand
      · rw [if_neg test] at hk
        cases hk
    | transfer b27 b26 offset =>
      cases hk
      rw [← h.transfer_eq]
      apply Decodes.operation_eq
      refine .transfer ?_ ?_ ?_
      · rw [h.bit_eq (by decide), b27]
      · rw [h.bit_eq (by decide), b26]
      · rw [h.bit_eq (by decide), h.bit_eq (by decide)]
        exact offset
    | multiply | branch | undefined | coprocessor => cases hk

theorem decode_eq (h : SameBut (ignored (operation w)) w v) (pc : Address) :
    decode v pc = { decode w pc with raw := v } := by
  have cond : nibble v 28 = nibble w 28 := by
    cases hk : ignored (operation w) with
    | none =>
      rw [hk] at h
      rw [h.eq]
    | some k =>
      rw [hk] at h
      exact h.nibble_eq 28 (.inl (ignored_lt hk))
  unfold decode
  rw [cond, h.operation_eq]

end SameBut

theorem operation_of_unassigned {w : Word} (free : Unassigned w) :
    operation w = .undefined ∨ operation w = .coprocessor := by
  rcases free with hole | ⟨b27, b26⟩
  · exact .inl (Decodes.undefined hole).operation_eq
  · exact .inr (Decodes.coprocessor b27 b26).operation_eq

/-! ## The canonical word -/

theorem bit_flagsMask (i : Nat) : bit 0x100000 i = decide (20 = i) := bit_mask rfl i

theorem bit_writeBackMask (i : Nat) : bit 0x200000 i = decide (21 = i) := bit_mask rfl i

theorem sameBut_canonical (w : Word) : SameBut (ignored (operation w)) w (canonical w) := by
  intro i away
  unfold canonical
  unfold ignored at away
  cases ho : operation w with
  | dataProcessing op s rn rd operand =>
    by_cases test : op.isTest = true
    · have other : ¬20 = i := by simpa [ho, test] using away
      simp [test, bit_flagsMask, other]
    · simp [test]
  | transfer t =>
    have other : ¬21 = i := by simpa [ho] using away
    simp only [bit_and]
    by_cases inside : i < 32
    · simp [bit_not _ inside, bit_writeBackMask, other]
    · simp [bit_of_ge w (Nat.not_lt.mp inside)]
  | multiply | branch | undefined | coprocessor => rfl

theorem operation_canonical (w : Word) : operation (canonical w) = operation w := (sameBut_canonical w).operation_eq

/-- The flags bit of a canonical word is the operation's. -/
theorem flags_canonical (w : Word) {op : Opcode} {s : Bool} {rn rd : Reg} {operand : Operand2}
    (h : operation w = .dataProcessing op s rn rd operand) (test : op.isTest = true) : bit (canonical w) 20 = true := by
  simp [canonical, h, test, bit_flagsMask]

theorem writeBack_canonical (w : Word) {t : Transfer} (h : operation w = .transfer t) :
    bit (canonical w) 21 = false := by
  have inside : 21 < 32 := by decide
  simp [canonical, h, bit_not _ inside, bit_writeBackMask]

/-- The fields of a decoded instruction make its canonical word. -/
theorem encode_fields (w : Word) (pc : Address) (assigned : ¬Unassigned w) :
    (decode w pc).fields.encode = canonical w := by
  have cond : Condition.ofCode (nibble (canonical w) 28) = .ofCode (nibble w 28) :=
    congrArg Instruction.cond ((sameBut_canonical w).decode_eq pc)
  have same := operation_canonical w
  have decoded := decodes (canonical w)
  rw [decode, ← cond, ← same]
  rw [← (decodes w).assigned_iff, ← same] at assigned
  -- of the same operation, but with every bit as the layout has it
  generalize ho : operation (canonical w) = o at same decoded assigned ⊢
  cases decoded with
  | dataProcessing b27 b26 mul operand =>
    refine encode_dataProcessing w pc b27 b26 operand ?_
    by_cases test : (Opcode.ofCode (nibble (canonical w) 21)).isTest = true
    · rw [flags_canonical w same.symm test, Bool.true_or]
    · rw [Bool.not_eq_true] at test
      rw [test, Bool.or_false]
  | multiply high low => exact encode_multiply w pc high low
  | transfer b27 b26 offset => exact encode_transfer w pc b27 b26 offset (writeBack_canonical w same.symm)
  | branch b27 b26 b25 => exact encode_branch w pc b27 b26 b25
  | undefined => exact assigned.elim
  | coprocessor => exact assigned.elim

/-- Only the words that have a layout are made by one. -/
theorem unassigned_iff_not_encoded (w : Word) :
    Unassigned w ↔ ∀ f : Fields, f.kind.Assigned → f.encode ≠ canonical w := by
  constructor
  · intro free f assigned made
    have none : ignored (operation w) = none := by
      rcases operation_of_unassigned free with h | h <;> rw [h] <;> rfl
    have same : canonical w = w := by
      have h := sameBut_canonical w
      rw [none] at h
      exact h.eq
    rw [same] at made
    rw [← made] at free
    exact Fields.not_unassigned_encode assigned free
  · intro unmade
    refine Decidable.byContradiction fun assigned => unmade (decode w 0).fields ?_ (encode_fields w 0 assigned)
    rw [Instruction.kind_fields]
    exact (decodes w).assigned_iff.mpr assigned

/-- The words without an operation ask for nothing. -/
theorem inert_of_unassigned {w : Word} (free : Unassigned w) (pc : Address) :
    (decode w pc).fields.Inert ∧ (decode w pc).fields.memToReg = false := by
  unfold decode
  rcases operation_of_unassigned free with h | h
  · rw [h]
    exact ⟨⟨rfl, rfl, rfl, rfl, rfl, rfl⟩, rfl⟩
  · rw [h]
    exact ⟨⟨rfl, rfl, rfl, rfl, rfl, rfl⟩, rfl⟩

end Decode

/-! ## Faithfulness -/

/-- Decoding `w` loses nothing but the ignored bit. If it has an operation it is made again, in
    canonical form, by the fields of its instruction, and every word that differs from it in the
    ignored bit decodes to the same instruction. If it has none it is unassigned: no instruction
    with a layout makes it, and it asks for nothing. -/
structure DecodesFaithfully (w : Word) (pc : Address) : Prop where
  defined : (decode w pc).fields.kind ≠ .undefined → (decode w pc).fields.kind ≠ .coprocessor →
    (∀ raw text, Fields.encode { (decode w pc).fields with raw, text } = Decode.canonical w) ∧
      ∀ v, Decode.SameBut (Decode.ignored (Decode.operation w)) w v → decode v pc = { decode w pc with raw := v }
  undefined : (decode w pc).fields.kind = .undefined ∨ (decode w pc).fields.kind = .coprocessor ↔ Decode.Unassigned w
  unassigned : Decode.Unassigned w ↔ ∀ f : Fields, f.kind.Assigned → f.encode ≠ Decode.canonical w
  silent : Decode.Unassigned w → (decode w pc).fields.Inert ∧ (decode w pc).fields.memToReg = false

/-- Every word decodes faithfully, at any address. -/
theorem decode_faithful (w : Word) (pc : Address) : DecodesFaithfully w pc := by
  have assigned := (Decode.decodes w).assigned_iff
  rw [OperationClass.assigned_iff, Decidable.not_iff_not] at assigned
  have kind : (decode w pc).fields.kind = (Decode.operation w).kind := Instruction.kind_fields _
  constructor
  case defined =>
    rw [kind]
    intro defined inside
    have h : ¬Decode.Unassigned w := fun free => (assigned.mpr free).elim defined inside
    constructor
    · intro raw text
      -- the layout reads neither
      exact Decode.encode_fields w pc h
    · intro v same
      exact same.decode_eq pc
  case undefined =>
    rw [kind]
    exact assigned
  case unassigned => exact Decode.unassigned_iff_not_encoded w
  case silent => exact fun free => Decode.inert_of_unassigned free pc

/-- CMP with a clear flags bit is the CMP that sets the flags, and a halfword store does nothing. -/
theorem decode_faithful_cmp :
    (∀ raw text, Fields.encode { (decode 0xE1400001 0).fields with raw, text } = 0xE1500001) ∧
      decode 0xE1500001 0 = { decode 0xE1400001 0 with raw := 0xE1500001 } ∧
      (decode 0xE1C100B2 0x8000).fields.Inert := by
  have canonical : Decode.canonical 0xE1400001 = 0xE1500001 := by decide
  obtain ⟨made, same⟩ := (decode_faithful 0xE1400001 0).defined (by decide) (by decide)
  obtain ⟨inert, -⟩ := (decode_faithful 0xE1C100B2 0x8000).silent (by decide)
  rw [canonical] at made
  have clear := same _ (Decode.sameBut_canonical 0xE1400001)
  rw [canonical] at clear
  exact ⟨made, clear, inert⟩

end FiveStageArm
