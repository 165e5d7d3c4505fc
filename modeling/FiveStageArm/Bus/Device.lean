/-
  FiveStageArm.Bus.Device — what the bus can reach: a memory, a UART or a block of pins,
  behind one set of operations on offsets from the device's base (`Device`). A read hands
  back the device after it, since reading a UART takes a byte off its queue. A write hands
  back the byte it puts on the console, if there is one.

  - A memory holds bytes by offset, none stored at first, each unstored byte reading as 0. A
    store at or past the capacity is dropped, and so is every store through the bus when the
    memory is read-only; a loader's store is not. Accesses through the bus are counted, a
    loader's and a peek are not.
  - A UART is a serial line with four word registers: DATA at 0, STATUS at 4, CTRL at 8, BAUD
    at 12. Reading the DATA word takes the oldest received byte off the queue (0 when there is
    none), writing it transmits the low byte. STATUS is read-only: bit 0 says the transmitter
    is ready, always, and bit 1 that a byte is waiting. CTRL and BAUD only hold what is
    written. DATA is one byte wide, so only its lowest lane receives and transmits; its other
    lanes read 0 and ignore writes. Transmitted bytes go to the transcript, and to the console
    too while `echo` is on.
  - The pins are thirty-two with three word registers: OUT at 0, IN at 4, DIR at 8. The program
    writes OUT and DIR, the outside world sets IN, and a pin is driven where both OUT and DIR
    have its bit.

  The loader's operations are those of a memory without write protection and without
  counting; on the other devices they are ordinary writes.
-/

import FiveStageArm.Word
import Std.Data.ExtTreeMap.Lemmas

namespace FiveStageArm

/-! ## Memory -/

structure Memory where
  label : String
  capacity : Word
  writable : Bool
  cells : Std.ExtTreeMap Address Byte
  reads : Nat
  writes : Nat

namespace Memory

def empty (label : String) (capacity : Word) (writable : Bool) : Memory := ⟨label, capacity, writable, ∅, 0, 0⟩

def reset (m : Memory) : Memory := empty m.label m.capacity m.writable

/-- How many offsets have been stored to. -/
def used (m : Memory) : Nat := m.cells.size

/-! ### Contents -/

def byteAt (m : Memory) (a : Address) : Byte := m.cells.getD a 0

/-- The word of the four bytes from `a` up; `a` need not be aligned. -/
def wordAt (m : Memory) (a : Address) : Word :=
  ofBytes (m.byteAt a) (m.byteAt (a + 1)) (m.byteAt (a + 2)) (m.byteAt (a + 3))

def loadByte (m : Memory) (a : Address) (b : Byte) : Memory :=
  if a < m.capacity then { m with cells := m.cells.insert a b } else m

/-- Stores consecutive bytes from `a` up, past the end of the address space to 0. -/
def loadBytes (m : Memory) (a : Address) : List Byte → Memory
  | [] => m
  | b :: bs => (m.loadByte a b).loadBytes (a + 1) bs

def loadWord (m : Memory) (a : Address) (w : Word) : Memory := m.loadBytes a (wordBytes w)

/-! ### Access through the bus -/

def countRead (m : Memory) : Memory := { m with reads := m.reads + 1 }

def countWrite (m : Memory) : Memory := { m with writes := m.writes + 1 }

def writeByte (m : Memory) (a : Address) (b : Byte) : Memory :=
  if m.writable then m.countWrite.loadByte a b else m.countWrite

def writeWord (m : Memory) (a : Address) (w : Word) : Memory :=
  if m.writable then m.countWrite.loadWord a w else m.countWrite

end Memory

/-! ## UART -/

structure Uart where
  /-- Received and not yet read, oldest first. -/
  received : List Byte
  /-- Transmitted, newest first. -/
  sent : List Byte
  control : Word
  baud : Word
  echo : Bool
  deriving DecidableEq

namespace Uart

def idle : Uart := ⟨[], [], 0, 0, false⟩

def status (u : Uart) : Word := if u.received.isEmpty then 1 else 3

/-- Transmitted, oldest first. -/
def transcript (u : Uart) : List Byte := u.sent.reverse

def reset (u : Uart) : Uart := { idle with echo := u.echo }

/-! ### Registers -/

def peekWord (u : Uart) (offset : Address) : Word :=
  if offset = 0 then
    match u.received with
    | b :: _ => b.toUInt32
    | [] => 0
  else if offset = 4 then u.status
  else if offset = 8 then u.control
  else if offset = 12 then u.baud
  else 0

/-- Only the DATA word itself takes a byte. -/
def readWord (u : Uart) (offset : Address) : Word × Uart :=
  (u.peekWord offset, if offset = 0 then { u with received := u.received.tail } else u)

/-- The UART afterwards and the byte for the console, if there is one. -/
def transmit (u : Uart) (b : Byte) : Uart × Option Byte :=
  ({ u with sent := b :: u.sent }, if u.echo then some b else none)

def writeWord (u : Uart) (offset : Address) (w : Word) : Uart × Option Byte :=
  if offset = 0 then u.transmit w.toUInt8
  else if offset = 8 then ({ u with control := w }, none)
  else if offset = 12 then ({ u with baud := w }, none)
  else (u, none)

def readByte (u : Uart) (offset : Address) : Byte × Uart :=
  if align offset = 0 ∧ offset ≠ 0 then (0, u)
  else
    let (w, u) := u.readWord (align offset)
    (lane w offset, u)

def writeByte (u : Uart) (offset : Address) (b : Byte) : Uart × Option Byte :=
  if align offset = 0 then if offset = 0 then u.transmit b else (u, none)
  else u.writeWord (align offset) (setLane (u.peekWord (align offset)) offset b)

/-! ### The other end of the line -/

def inject (u : Uart) (bytes : List Byte) : Uart := { u with received := u.received ++ bytes }

def clearTranscript (u : Uart) : Uart := { u with sent := [] }

end Uart

/-! ## Pins -/

structure Gpio where
  out : Word
  inputs : Word
  dir : Word
  deriving DecidableEq

namespace Gpio

def idle : Gpio := ⟨0, 0, 0⟩

/-- The levels the program drives. -/
def pins (g : Gpio) : Word := g.out &&& g.dir

def readWord (g : Gpio) (offset : Address) : Word :=
  if offset = 0 then g.out else if offset = 4 then g.inputs else if offset = 8 then g.dir else 0

def writeWord (g : Gpio) (offset : Address) (w : Word) : Gpio :=
  if offset = 0 then { g with out := w } else if offset = 8 then { g with dir := w } else g

def readByte (g : Gpio) (offset : Address) : Byte := lane (g.readWord (align offset)) offset

def writeByte (g : Gpio) (offset : Address) (b : Byte) : Gpio :=
  g.writeWord (align offset) (setLane (g.readWord (align offset)) offset b)

def setInputs (g : Gpio) (w : Word) : Gpio := { g with inputs := w }

end Gpio

/-! ## Devices -/

inductive Device where
  | memory (m : Memory)
  | uart (u : Uart)
  | gpio (g : Gpio)

namespace Device

def name : Device → String
  | memory m => m.label
  | uart _ => "uart"
  | gpio _ => "gpio"

def reset : Device → Device
  | memory m => memory m.reset
  | uart u => uart u.reset
  | gpio _ => gpio .idle

def ofUart : Uart × Option Byte → Device × Option Byte
  | (u, echoed) => (uart u, echoed)

/-! ### Words -/

/-- A read that changes nothing. -/
def peekWord : Device → Address → Word
  | memory m, a => m.wordAt a
  | uart u, a => u.peekWord a
  | gpio g, a => g.readWord a

def readWord : Device → Address → Word × Device
  | memory m, a => (m.wordAt a, memory m.countRead)
  | uart u, a =>
    let (w, u) := u.readWord a
    (w, uart u)
  | gpio g, a => (g.readWord a, gpio g)

def writeWord : Device → Address → Word → Device × Option Byte
  | memory m, a, w => (memory (m.writeWord a w), none)
  | uart u, a, w => ofUart (u.writeWord a w)
  | gpio g, a, w => (gpio (g.writeWord a w), none)

def loadWord : Device → Address → Word → Device × Option Byte
  | memory m, a, w => (memory (m.loadWord a w), none)
  | d, a, w => d.writeWord a w

/-! ### Bytes -/

def readByte : Device → Address → Byte × Device
  | memory m, a => (m.byteAt a, memory m.countRead)
  | uart u, a =>
    let (b, u) := u.readByte a
    (b, uart u)
  | gpio g, a => (g.readByte a, gpio g)

def writeByte : Device → Address → Byte → Device × Option Byte
  | memory m, a, b => (memory (m.writeByte a b), none)
  | uart u, a, b => ofUart (u.writeByte a b)
  | gpio g, a, b => (gpio (g.writeByte a b), none)

def loadByte : Device → Address → Byte → Device × Option Byte
  | memory m, a, b => (memory (m.loadByte a b), none)
  | d, a, b => d.writeByte a b

end Device

end FiveStageArm
