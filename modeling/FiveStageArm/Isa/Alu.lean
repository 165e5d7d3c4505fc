/-
  FiveStageArm.Isa.Alu — the barrel shifter, the sixteen data-processing operations and the
  multiplier.

  A shift hands back a word and the carry that falls out of it. In an encoding the amount 0 is
  special: LSR and ASR by 0 shift by 32, and ROR by 0 rotates one place through the carry; LSL
  by 0 changes nothing. A shift by a register takes the register's low byte, and there 0 always
  changes nothing.

  A difference is a sum with the subtrahend complemented and a carry in, so the carry out of a
  subtraction means "no borrow".
-/

import FiveStageArm.Text

namespace FiveStageArm

/-! ## Shifts -/

/-- In the order of their codes, 0 to 3. -/
inductive ShiftKind where
  | lsl | lsr | asr | ror
  deriving DecidableEq, Repr

structure Shifted where
  value : Word
  carry : Bool
  deriving DecidableEq

namespace ShiftKind

def all : Vector ShiftKind 4 := #v[lsl, lsr, asr, ror]

def ofCode (code : Fin 4) : ShiftKind := all.get code

def name : ShiftKind → String
  | lsl => "LSL" | lsr => "LSR" | asr => "ASR" | ror => "ROR"

end ShiftKind

/-- Shifts right and fills with the sign bit. -/
def shiftRightSigned (value amount : Word) : Word := ⟨value.toBitVec.sshiftRight amount.toNat⟩

/-- Every bit of the word is its sign bit. -/
def signFill (value : Word) : Word := if bit value 31 then 0xFFFFFFFF else 0

/-- Shift by an amount from 1 to 31. -/
def shiftBelow32 (kind : ShiftKind) (value amount : Word) : Shifted :=
  match kind with
  | .lsl => ⟨value <<< amount, bit value (32 - amount.toNat)⟩
  | .lsr => ⟨value >>> amount, bit value (amount.toNat - 1)⟩
  | .asr => ⟨shiftRightSigned value amount, bit value (amount.toNat - 1)⟩
  | .ror => ⟨rotateRight value amount, bit value (amount.toNat - 1)⟩

/-- Shift by an amount from an encoding, taken modulo 32. -/
def shiftImmediate (kind : ShiftKind) (value amount : Word) (carry : Bool) : Shifted :=
  let r := amount &&& 31
  if r = 0 then
    match kind with
    | .lsl => ⟨value, carry⟩
    | .lsr => ⟨0, bit value 31⟩
    | .asr => ⟨signFill value, bit value 31⟩
    | .ror => ⟨(if carry then (0x80000000 : Word) else 0) ||| (value >>> 1), bit value 0⟩
  else shiftBelow32 kind value r

/-- Shift by the low byte of a register. -/
def shiftByRegister (kind : ShiftKind) (value amount : Word) (carry : Bool) : Shifted :=
  let r := amount &&& 0xFF
  if r = 0 then ⟨value, carry⟩
  else
    match kind with
    | .lsl => if r < 32 then shiftBelow32 kind value r else ⟨0, r = 32 && bit value 0⟩
    | .lsr => if r < 32 then shiftBelow32 kind value r else ⟨0, r = 32 && bit value 31⟩
    | .asr => if r < 32 then shiftBelow32 kind value r else ⟨signFill value, bit value 31⟩
    | .ror => if r &&& 31 = 0 then ⟨value, bit value 31⟩ else shiftBelow32 kind value (r &&& 31)

/-- The low byte of `imm` rotated right. The carry is untouched by a rotation of 0 and is
    the top bit of the result otherwise. -/
def rotateImmediate (imm amount : Word) (carry : Bool) : Shifted :=
  let byte := imm &&& 0xFF
  if amount = 0 then ⟨byte, carry⟩ else ⟨rotateRight byte amount, bit (rotateRight byte amount) 31⟩

/-! ## Arithmetic -/

/-- In the order of their codes, 0 to 15. -/
inductive Opcode where
  | and | eor | sub | rsb | add | adc | sbc | rsc | tst | teq | cmp | cmn | orr | mov | bic | mvn
  deriving DecidableEq, Repr

structure ArithResult where
  value : Word
  carry : Bool
  overflow : Bool
  deriving DecidableEq

namespace Opcode

def all : Vector Opcode 16 :=
  #v[and, eor, sub, rsb, add, adc, sbc, rsc, tst, teq, cmp, cmn, orr, mov, bic, mvn]

def ofCode (code : Fin 16) : Opcode := all.get code

def name : Opcode → String
  | and => "AND" | eor => "EOR" | sub => "SUB" | rsb => "RSB" | add => "ADD" | adc => "ADC" | sbc => "SBC"
  | rsc => "RSC" | tst => "TST" | teq => "TEQ" | cmp => "CMP" | cmn => "CMN" | orr => "ORR" | mov => "MOV"
  | bic => "BIC" | mvn => "MVN"

/-- Sets the flags and writes no register. -/
def isTest : Opcode → Bool
  | tst | teq | cmp | cmn => true
  | _ => false

/-- Takes its carry flag from the shifter and leaves V alone. -/
def isLogical : Opcode → Bool
  | and | eor | tst | teq | orr | mov | bic | mvn => true
  | _ => false

/-- Has no first operand. -/
def isMove : Opcode → Bool
  | mov | mvn => true
  | _ => false

end Opcode

/-- The sum with its carry out of bit 31. It overflows when the operands agree in sign and
    the sum does not. -/
def addWithCarry (a b : Word) (carry : Bool) : ArithResult :=
  let sum := a.toNat + b.toNat + carry.toNat
  let value := UInt32.ofNat sum
  ⟨value, two32 ≤ sum, bit (~~~(a ^^^ b) &&& (a ^^^ value)) 31⟩

def logical (value : Word) : ArithResult := ⟨value, false, false⟩

/-- The carry is the C flag before the operation. -/
def Opcode.apply (op : Opcode) (a b : Word) (carry : Bool) : ArithResult :=
  match op with
  | .and | .tst => logical (a &&& b)
  | .eor | .teq => logical (a ^^^ b)
  | .orr => logical (a ||| b)
  | .mov => logical b
  | .bic => logical (a &&& ~~~b)
  | .mvn => logical (~~~b)
  | .sub | .cmp => addWithCarry a (~~~b) true
  | .rsb => addWithCarry b (~~~a) true
  | .add | .cmn => addWithCarry a b false
  | .adc => addWithCarry a b carry
  | .sbc => addWithCarry a (~~~b) carry
  | .rsc => addWithCarry b (~~~a) carry

/-- The low word of `a * b + addend`. -/
def multiplyAdd (a b addend : Word) : Word := a * b + addend

end FiveStageArm
