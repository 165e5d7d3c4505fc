/-
  FiveStageArm.Bus.Basic — the bus: devices, the regions of the address space that lead to
  them, and four counters. A region is a range of addresses that does not wrap; regions
  never overlap and stand in order of their bases, and one device may be behind several.
  An access outside every region reads 0 or writes nothing, and is counted.

  A word access goes to the word its address falls in, a byte access to the byte itself.
  The device is given the offset from the region's base. What echoing UARTs transmit is
  gathered on one console.

  Memory is shown as rows of sixteen bytes, in hexadecimal and as characters, and looking
  changes nothing. A byte outside every region is shown as two dots, and anything but a
  printable ASCII character as one. A dump sets the format of its stream as it goes along, and
  leaves it in decimal with blanks for filling.
-/

import FiveStageArm.Bus.Device
import FiveStageArm.Text

namespace FiveStageArm

structure Region (n : Nat) where
  base : Address
  size : Word
  device : Fin n
  deriving DecidableEq

namespace Region

/-- The highest address of the region. -/
def last (r : Region n) : Address := r.base + (r.size - 1)

def contains (r : Region n) (a : Address) : Bool := r.base ≤ a && a ≤ r.last

def overlaps (r s : Region n) : Bool := r.base ≤ s.last && s.base ≤ r.last

end Region

structure Bus (n : Nat) where
  devices : Vector Device n
  regions : List (Region n)
  fetches : Nat
  reads : Nat
  writes : Nat
  unmapped : Nat
  /-- What echoing UARTs have transmitted, newest first. -/
  console : List Byte

namespace Bus

/-- Nothing mapped, nothing counted. -/
def ofDevices (devices : Vector Device n) : Bus n := ⟨devices, [], 0, 0, 0, 0, []⟩

/-! ## Mapping -/

inductive MapError where
  | empty (device : String) (base : Address)
  | wraps (device : String) (base : Address)
  | overlap (device : String) (base last : Address) (other : String) (otherBase otherLast : Address)
  deriving DecidableEq

def rangeText (base last : Address) : String := " [" ++ Text.hex base ++ " - " ++ Text.hex last ++ "]"

def MapError.message : MapError → String
  | empty device base => "Empty region for " ++ device ++ " at " ++ Text.hex base
  | wraps device base =>
    "Region for " ++ device ++ " at " ++ Text.hex base ++ " wraps past the end of the address space"
  | overlap device base last other otherBase otherLast =>
    "Region " ++ device ++ rangeText base last ++ " overlaps " ++ other ++ rangeText otherBase otherLast

/-- Inserts before the first region with a higher base. -/
def insertRegion (r : Region n) : List (Region n) → List (Region n)
  | [] => [r]
  | s :: rs => if r.base < s.base then r :: s :: rs else s :: insertRegion r rs

def deviceName (b : Bus n) (r : Region n) : String := b.devices[r.device].name

/-- Of several faults the first of empty, wrapping and overlapping is reported, and of
    several overlaps the one with the lowest base. -/
def map (b : Bus n) (base : Address) (size : Word) (device : Fin n) : Except MapError (Bus n) :=
  let r : Region n := ⟨base, size, device⟩
  if size = 0 then .error (.empty (b.deviceName r) base)
  else if r.last < base then .error (.wraps (b.deviceName r) base)
  else
    match b.regions.find? r.overlaps with
    | some s => .error (.overlap (b.deviceName r) base r.last (b.deviceName s) s.base s.last)
    | none => .ok { b with regions := insertRegion r b.regions }

def find? (b : Bus n) (a : Address) : Option (Region n) := b.regions.find? (·.contains a)

/-! ## Access -/

def setDevice (b : Bus n) (i : Fin n) (d : Device) : Bus n := { b with devices := b.devices.set i d }

/-- A device after a write, and the byte the write put on the console. -/
def settle (b : Bus n) (i : Fin n) : Device × Option Byte → Bus n
  | (d, none) => b.setDevice i d
  | (d, some c) => { b.setDevice i d with console := c :: b.console }

def missed (b : Bus n) : Bus n := { b with unmapped := b.unmapped + 1 }

def readWordAt (b : Bus n) (a : Address) : Word × Bus n :=
  match b.find? a with
  | none => (0, b.missed)
  | some r =>
    let (w, d) := b.devices[r.device].readWord (a - r.base)
    (w, b.setDevice r.device d)

/-- An instruction fetch. -/
def fetch (b : Bus n) (a : Address) : Word × Bus n := { b with fetches := b.fetches + 1 }.readWordAt (align a)

def read (b : Bus n) (a : Address) : Word × Bus n := { b with reads := b.reads + 1 }.readWordAt (align a)

def write (b : Bus n) (a : Address) (w : Word) : Bus n :=
  let b := { b with writes := b.writes + 1 }
  match b.find? (align a) with
  | none => b.missed
  | some r => b.settle r.device (b.devices[r.device].writeWord (align a - r.base) w)

def readByte (b : Bus n) (a : Address) : Byte × Bus n :=
  let b := { b with reads := b.reads + 1 }
  match b.find? a with
  | none => (0, b.missed)
  | some r =>
    let (w, d) := b.devices[r.device].readByte (a - r.base)
    (w, b.setDevice r.device d)

def writeByte (b : Bus n) (a : Address) (v : Byte) : Bus n :=
  let b := { b with writes := b.writes + 1 }
  match b.find? a with
  | none => b.missed
  | some r => b.settle r.device (b.devices[r.device].writeByte (a - r.base) v)

/-- A read that changes nothing, counters included. -/
def peek (b : Bus n) (a : Address) : Word :=
  match b.find? (align a) with
  | none => 0
  | some r => b.devices[r.device].peekWord (align a - r.base)

/-! ## Loading

  A loader's stores are not counted, and one outside every region is dropped. The word at
  an unaligned address goes to the device as it is. -/

def loadWord (b : Bus n) (a : Address) (w : Word) : Bus n :=
  match b.find? a with
  | none => b
  | some r => b.settle r.device (b.devices[r.device].loadWord (a - r.base) w)

def loadByte (b : Bus n) (a : Address) (v : Byte) : Bus n :=
  match b.find? a with
  | none => b
  | some r => b.settle r.device (b.devices[r.device].loadByte (a - r.base) v)

/-- Words at `a`, `a + 4`, … -/
def loadWords (b : Bus n) (a : Address) : List Word → Bus n
  | [] => b
  | w :: ws => (b.loadWord a w).loadWords (a + 4) ws

/-- Bytes at `a`, `a + 1`, … -/
def loadBytes (b : Bus n) (a : Address) : List Byte → Bus n
  | [] => b
  | v :: vs => (b.loadByte a v).loadBytes (a + 1) vs

/-- Resets every mapped device and the counters. -/
def reset (b : Bus n) : Bus n :=
  { b with
    devices := b.regions.foldl (fun ds r => ds.set r.device ds[r.device].reset) b.devices
    fetches := 0, reads := 0, writes := 0, unmapped := 0 }

/-! ## Showing memory -/

/-- The byte at `a` as a peek sees it. -/
def peekByte (b : Bus n) (a : Address) : Byte := lane (b.peek a) a

def putCell (b : Bus n) (s : Text.Stream) (a : Address) : Text.Stream :=
  if (b.find? a).isSome then
    (((s.setBase .hexadecimal).setFill '0').putNumber 2 (b.peekByte a).toNat).put " "
  else s.put ".. "

def charCell (b : Bus n) (a : Address) : Char :=
  let v := b.peekByte a
  if 32 ≤ v ∧ v < 127 then Char.ofUInt8 v else '.'

/-- A row of `count` bytes from `row` up. A wider gap follows the eighth. -/
def putRow (b : Bus n) (s : Text.Stream) (row : Address) (count : Nat) : Text.Stream :=
  let cell (s : Text.Stream) (j : Nat) : Text.Stream :=
    let s := b.putCell s (row + UInt32.ofNat j)
    if j = 7 then s.put " " else s
  let character (s : Text.Stream) (j : Nat) : Text.Stream :=
    s.put (String.singleton (b.charCell (row + UInt32.ofNat j)))
  let s := (List.range count).foldl cell (s.put (Text.hex row ++ ": "))
  let s := (List.range count).foldl character (s.put " |")
  s.put "|\n"

/-- The rows of those of the `count` bytes from `start` up that come after the first `done`. -/
def putRows (b : Bus n) (s : Text.Stream) (start : Address) (done count : Nat) : Text.Stream :=
  if done < count then
    b.putRows (b.putRow s (start + UInt32.ofNat done) (min 16 (count - done))) start (done + 16) count
  else s
termination_by count - done

def putDump (b : Bus n) (s : Text.Stream) (start : Address) (count : Nat) : Text.Stream :=
  let last := start + UInt32.ofNat count - 1
  let s := s.put (Text.line ("Memory [" ++ Text.hex start ++ " - " ++ Text.hex last ++ "]:"))
  ((b.putRows s start 0 count).setBase .decimal).setFill ' '

/-- Shows `count` bytes from `start` up, wrapping to 0 past the highest address. -/
def dump (b : Bus n) (start : Address) (count : Nat) : String := (b.putDump .fresh start count).written

def regionsText (b : Bus n) : String :=
  "Memory map:\n" ++ String.join (b.regions.map fun r =>
    Text.line ("  " ++ Text.hex r.base ++ " - " ++ Text.hex r.last ++ "  " ++ b.deviceName r))

end Bus

end FiveStageArm
