/-
  FiveStageArm.Text — how numbers and columns are written, and how numbers are read. Text is
  a `String` whose characters are bytes (U+0000 to U+00FF), so a width counts bytes.

  - A stream keeps its format as it was last set: the base that numbers are written in and the
    character that fills their columns. The width of a column is given with each number, which
    stands at its right.
  - A quotient is written with two decimal places. It is first rounded to 53 significant bits
    (a half goes to the even neighbour), and the number so obtained, a whole number times a
    power of two, is then rounded to hundredths exactly, again a half to the even neighbour.
    So 203/200 is written 1.01: its 53-bit neighbour lies just below 1.015.
  - An unsigned numeral is read from the front of a text: blanks, an optional sign, an optional
    `0x` or `0X` where the radix allows it, then at least one digit, as many as there are. What
    follows the digits is handed back. A `0x` counts as a radix mark only before a hexadecimal
    digit; otherwise the numeral is the `0` alone. A minus sign negates modulo 2^64, and a
    magnitude of 2^64 or more has no value.
-/

import FiveStageArm.Word

namespace FiveStageArm.Text

/-! ## Columns and numbers -/

/-- Puts `s` at the right of a column of `width`; a longer `s` is left whole. -/
def padLeft (width : Nat) (fill : Char) (s : String) : String := String.ofList (s.toList.leftpad width fill)

/-- Puts `s` at the left of a column of `width`; a longer `s` is left whole. -/
def padRight (width : Nat) (s : String) : String := String.ofList (s.toList.rightpad width ' ')

/-- Lower-case hexadecimal digits, at least `width` of them. -/
def hexDigits (width n : Nat) : String := padLeft width '0' (String.ofList (Nat.toDigits 16 n))

/-- A word in hexadecimal, `0x` first. -/
def hex (w : Word) (width : Nat := 8) : String := "0x" ++ hexDigits width w.toNat

def decimal (n : Nat) : String := String.ofList (Nat.toDigits 10 n)

def integer : Int → String
  | .ofNat n => decimal n
  | .negSucc n => "-" ++ decimal (n + 1)

def onOff (on : Bool) : String := if on then "on" else "off"

/-- One line of output. -/
def line (s : String) : String := s ++ "\n"

/-- The text whose characters are `bytes`. -/
def ofBytes (bytes : List Byte) : String := String.ofList (bytes.map Char.ofUInt8)

/-- The bytes of a text whose characters are all below U+0100. -/
def toBytes (s : String) : List Byte := s.toList.map Char.toUInt8

/-! ## Streams -/

inductive Base where
  | decimal | hexadecimal
  deriving DecidableEq

structure Stream where
  /-- Everything written so far. -/
  written : String
  base : Base
  fill : Char
  deriving DecidableEq

namespace Stream

/-- Nothing written, numbers in decimal and blanks for filling. -/
def fresh : Stream := ⟨"", .decimal, ' '⟩

def setBase (s : Stream) (base : Base) : Stream := { s with base := base }

def setFill (s : Stream) (fill : Char) : Stream := { s with fill := fill }

def put (s : Stream) (text : String) : Stream := { s with written := s.written ++ text }

def putNumber (s : Stream) (width n : Nat) : Stream :=
  let digits := match s.base with
    | .decimal => decimal n
    | .hexadecimal => hexDigits 0 n
  s.put (padLeft width s.fill digits)

end Stream

/-! ## Quotients -/

/-- The quotient to the nearest whole number; a half goes to the even neighbour. -/
def roundHalfEven (num den : Nat) : Nat :=
  let q := num / den
  let r := num % den
  if den < 2 * r ∨ (2 * r = den ∧ q % 2 = 1) then q + 1 else q

/-- The number `significand * 2^up / 2^down`; one of `up` and `down` is zero. -/
structure Scaled where
  significand : Nat
  up : Nat
  down : Nat

/-- Numerator and denominator of `num / den / 2^e`. -/
def scaleBy (num den : Nat) (e : Int) : Nat × Nat :=
  if 0 ≤ e then (num, den <<< e.toNat) else (num <<< (-e).toNat, den)

/-- The quotient at 53 significant bits. -/
def round53 (num den : Nat) : Scaled :=
  -- The estimate of the exponent is right or one too large.
  let estimate : Int := (Nat.log2 num : Int) - Nat.log2 den - 52
  let (a, b) := scaleBy num den estimate
  let e := if a / b < 0x10000000000000 then estimate - 1 else estimate
  let (a, b) := scaleBy num den e
  ⟨roundHalfEven a b, e.toNat, (-e).toNat⟩

/-- The quotient in hundredths. -/
def hundredths (num den : Nat) : Nat :=
  let s := round53 num den
  roundHalfEven ((s.significand <<< s.up) * 100) (1 <<< s.down)

def quotient (num den : Nat) : String :=
  let h := hundredths num den
  decimal (h / 100) ++ "." ++ padLeft 2 '0' (decimal (h % 100))

/-! ## Numerals -/

/-- Space, tab, line feed, vertical tab, form feed and carriage return. -/
def isBlank (c : Char) : Bool := c = ' ' || ('\t' ≤ c && c ≤ '\r')

/-- The value of a digit below `radix`. -/
def digit? (radix : Nat) (c : Char) : Option Nat :=
  let d := if '0' ≤ c ∧ c ≤ '9' then c.toNat - '0'.toNat
    else if 'a' ≤ c ∧ c ≤ 'f' then c.toNat - 'a'.toNat + 10
    else if 'A' ≤ c ∧ c ≤ 'F' then c.toNat - 'A'.toNat + 10
    else radix
  if d < radix then some d else none

/-- Extends `acc` by the digits at the front; the rest starts with none. -/
def readDigits (radix acc : Nat) : List Char → Nat × List Char
  | [] => (acc, [])
  | c :: cs =>
    match digit? radix c with
    | some d => readDigits radix (acc * radix + d) cs
    | none => (acc, c :: cs)

/-- The text after a `0x` that marks a hexadecimal numeral. -/
def afterHexMark? : List Char → Option (List Char)
  | '0' :: x :: d :: cs => if (x = 'x' ∨ x = 'X') ∧ (digit? 16 d).isSome then some (d :: cs) else none
  | _ => none

inductive Radix where
  | decimal
  /-- Hexadecimal, with or without its mark. -/
  | hexadecimal
  /-- Hexadecimal after its mark, octal after a `0`, decimal otherwise. -/
  | marked
  deriving DecidableEq

structure Numeral where
  negative : Bool
  magnitude : Nat
  rest : List Char
  deriving DecidableEq

/-- The radix in force and the text its digits start at. -/
def Radix.resolve (r : Radix) (cs : List Char) : Nat × List Char :=
  match r, cs with
  | .decimal, _ => (10, cs)
  | .hexadecimal, _ => (16, (afterHexMark? cs).getD cs)
  | .marked, '0' :: _ =>
    match afterHexMark? cs with
    | some ds => (16, ds)
    | none => (8, cs)
  | .marked, _ => (10, cs)

/-- Absent when no digit follows the blanks and the sign. -/
def Numeral.read? (r : Radix) (cs : List Char) : Option Numeral :=
  let body := cs.dropWhile isBlank
  let (negative, unsigned) := match body with
    | '-' :: t => (true, t)
    | '+' :: t => (false, t)
    | t => (false, t)
  let (radix, digits) := r.resolve unsigned
  match digits with
  | [] => none
  | c :: _ =>
    if (digit? radix c).isNone then none
    else
      let (magnitude, rest) := readDigits radix 0 digits
      some ⟨negative, magnitude, rest⟩

/-- The 64-bit value, if the magnitude has one. -/
def Numeral.value? (n : Numeral) : Option Nat :=
  if n.magnitude < two64 then some (if n.negative then (two64 - n.magnitude) % two64 else n.magnitude)
  else none

end FiveStageArm.Text
