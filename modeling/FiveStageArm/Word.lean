/-
  FiveStageArm.Word — 32-bit words and the ways the machine cuts them up: single bits,
  the bit fields of an encoding, rotation and sign extension, and the four byte lanes of
  a word (lane 0 is the lowest byte, so a word in memory is little-endian).

  All arithmetic on a `Word` wraps at 2^32.
-/

namespace FiveStageArm

abbrev Word := UInt32
abbrev Address := UInt32
abbrev Byte := UInt8

/-- How many values 32 bits have. -/
abbrev two32 : Nat := 0x100000000

/-- How many values 64 bits have. -/
abbrev two64 : Nat := 0x10000000000000000

/-! ## Bits and fields -/

def bit (w : Word) (n : Nat) : Bool := w.toBitVec.getLsbD n

/-- The `width` bits of `w` from bit `lo` up, as a word. -/
def bits (w lo width : Word) : Word := (w >>> lo) &&& ((1 <<< width) - 1)

/-- The four bits of `w` from bit `lo` up. -/
def nibble (w : Word) (lo : Nat) : Fin 16 := Fin.ofNat 16 (w.toNat >>> lo)

/-- The amount is taken modulo 32. -/
def rotateRight (w amount : Word) : Word :=
  let r := amount &&& 31
  if r = 0 then w else (w >>> r) ||| (w <<< (32 - r))

/-- Copies bit `width - 1` of `w` into every bit above it when it is set; a clear sign
    bit leaves `w` as it is. Shift distances are taken modulo 32. -/
def signExtend (w width : Word) : Word :=
  if w &&& (1 <<< (width - 1)) = 0 then w else w ||| ~~~((1 <<< width) - 1)

/-- The two's complement reading of a word. -/
def signed (w : Word) : Int := w.toBitVec.toInt

/-- The word holding `i` modulo 2^32. -/
def ofSigned (i : Int) : Word := ⟨BitVec.ofInt 32 i⟩

/-! ## Words in memory -/

/-- The address of the word that `a` falls in. -/
def align (a : Address) : Address := a &&& ~~~3

/-- How far left of bit 0 the byte lane of `a` starts. -/
def laneShift (a : Address) : Word := (a &&& 3) * 8

/-- The byte of `w` in the lane of address `a`. -/
def lane (w : Word) (a : Address) : Byte := (w >>> laneShift a).toUInt8

/-- The word `w` with the lane of address `a` replaced by `b`. -/
def setLane (w : Word) (a : Address) (b : Byte) : Word :=
  (w &&& ~~~(0xFF <<< laneShift a)) ||| (b.toUInt32 <<< laneShift a)

/-- The four bytes of a word, lowest first. -/
def wordBytes (w : Word) : List Byte := [w.toUInt8, (w >>> 8).toUInt8, (w >>> 16).toUInt8, (w >>> 24).toUInt8]

/-- The word whose bytes are `b0`, `b1`, `b2`, `b3`, lowest first. -/
def ofBytes (b0 b1 b2 b3 : Byte) : Word :=
  b0.toUInt32 ||| (b1.toUInt32 <<< 8) ||| (b2.toUInt32 <<< 16) ||| (b3.toUInt32 <<< 24)

end FiveStageArm
