/-
  FiveStageArm.Isa.Decode — from a word to an instruction, and from an instruction to its
  text. Bits 31 to 28 are the condition and bits 27 and 26 choose among data processing (with
  the multiplier's corner), loads and stores, branches, and the coprocessor space. Words of
  the first three that this machine has no operation for are `undefined`: halfword transfers
  and swaps, register-shifted offsets, block transfers.

  Every word decodes; nothing is refused.

  The text does not depend on whether the condition passed. An immediate is written by its
  value, so two rotations of a byte to one value read alike; an offset of 0 is not written at
  all.
-/

import FiveStageArm.Isa.Instruction

namespace FiveStageArm.Decode

def shiftKind (w : Word) : ShiftKind := .ofCode (Fin.ofNat 4 (w.toNat >>> 5))

def shiftedRegister (w : Word) : ShiftedRegister := ⟨nibble w 0, shiftKind w, bits w 7 5⟩

def operand2 (w : Word) : Operand2 :=
  if bit w 25 then .immediate (bits w 0 8) (bits w 8 4 * 2)
  else if bit w 4 then .shiftedBy (nibble w 0) (shiftKind w) (nibble w 8)
  else .shifted (shiftedRegister w)

/-- A test sets the flags whatever bit 20 says. -/
def dataProcessing (w : Word) : Operation :=
  let op := Opcode.ofCode (nibble w 21)
  .dataProcessing op (bit w 20 || op.isTest) (nibble w 16) (nibble w 12) (operand2 w)

def multiply (w : Word) : Operation :=
  .multiply (bit w 21) (bit w 20) (nibble w 16) (nibble w 12) (nibble w 8) (nibble w 0)

def transfer (w : Word) : Operation :=
  .transfer {
    load := bit w 20, byte := bit w 22, pre := bit w 24, up := bit w 23
    rn := nibble w 16, rd := nibble w 12
    offset := if bit w 25 then .shifted (shiftedRegister w) else .immediate (bits w 0 12) }

def branch (w : Word) : Operation := .branch (bit w 24) (signExtend (bits w 0 24) 24 * 4)

def isMultiply (w : Word) : Bool := bits w 22 6 == 0 && bits w 4 4 == 9

def operation (w : Word) : Operation :=
  match bit w 27, bit w 26 with
  | false, false =>
    if isMultiply w then multiply w
    else if !bit w 25 && bit w 4 && bit w 7 then .undefined
    else dataProcessing w
  | false, true => if bit w 25 && bit w 4 then .undefined else transfer w
  | true, false => if bit w 25 then branch w else .undefined
  | true, true => .coprocessor

end FiveStageArm.Decode

namespace FiveStageArm

/-- The instruction at `pc`, its condition not yet resolved: it is taken to pass. -/
def decode (w : Word) (pc : Address) : Instruction :=
  ⟨w, pc, .ofCode (nibble w 28), Decode.operation w, true⟩

/-- The instruction at `pc` with its condition resolved against the flags. -/
def decodeGated (w : Word) (pc : Address) (f : Flags) : Instruction := (decode w pc).gate f

/-! ## Assembly -/

/-- Shifts by 0 are written as what they do: LSL not at all, LSR and ASR by 32, ROR as
    RRX. -/
def ShiftedRegister.text (r : ShiftedRegister) : String :=
  let shift :=
    if r.kind = .ror ∧ r.amount = 0 then ", RRX"
    else if r.amount ≠ 0 then ", " ++ r.kind.name ++ " #" ++ Text.decimal r.amount.toNat
    else if r.kind ≠ .lsl then ", " ++ r.kind.name ++ " #32"
    else ""
  r.rm.name ++ shift

def Operand2.text : Operand2 → String
  | .immediate imm rotate => "#" ++ Text.hex (rotateRight imm rotate) 1
  | .shifted r => r.text
  | .shiftedBy rm kind rs => rm.name ++ ", " ++ kind.name ++ " " ++ rs.name

/-- The comma, the sign and the offset; nothing for an immediate 0. -/
def Offset.text (up : Bool) (o : Offset) : String :=
  let sign := if up then "" else "-"
  match o with
  | .immediate imm => if imm = 0 then "" else ", #" ++ sign ++ Text.hex imm 1
  | .shifted r => ", " ++ sign ++ r.text

def Transfer.text (t : Transfer) (cond : String) : String :=
  let offset := t.offset.text t.up
  (if t.load then "LDR" else "STR") ++ cond ++ (if t.byte then "B" else "") ++ " " ++ t.rd.name ++ ", [" ++ t.rn.name
    ++ (if t.pre then offset ++ "]" else "]" ++ offset)

def Instruction.text (i : Instruction) : String :=
  let cond := i.cond.suffixText
  match i.operation with
  | .dataProcessing op s rn rd operand =>
    op.name ++ cond ++ (if s && !op.isTest then "S" else "") ++ " "
      ++ (if op.isTest then "" else rd.name ++ ", ")
      ++ (if op.isMove then "" else rn.name ++ ", ")
      ++ operand.text
  | .multiply accumulate s rd rn rs rm =>
    (if accumulate then "MLA" else "MUL") ++ cond ++ (if s then "S" else "") ++ " "
      ++ rd.name ++ ", " ++ rm.name ++ ", " ++ rs.name ++ (if accumulate then ", " ++ rn.name else "")
  | .transfer t => t.text cond
  | .branch link offset => "B" ++ (if link then "L" else "") ++ cond ++ " " ++ Text.hex (i.target offset)
  | .coprocessor =>
    if bits i.raw 24 4 = 15 then "SWI" ++ cond ++ " " ++ Text.hex (bits i.raw 0 24) 1
    else "COPROC " ++ Text.hex i.raw
  | .undefined => "UNDEFINED " ++ Text.hex i.raw

/-- The text of the word `w` at `pc`. -/
def disassemble (w : Word) (pc : Address) : String := (decode w pc).text

end FiveStageArm
