/-
  FiveStageArm.Proofs.Bus.Contents — what a bus holds, its access counters forgotten: the
  bytes of the memories, the registers and queues of the UARTs, the pins, the console.

  Proved: no access looks at a counter. From buses of equal contents the same access
  returns the same value and leaves equal contents (`access_congr`), and a peek sees the
  same word (`peek_congr`). A fetch reads what a peek sees (`fetch_fst`).
-/

import FiveStageArm.Proofs.Bus.Frame
import FiveStageArm.Machine

namespace FiveStageArm

/-! ## Memories -/

namespace Memory

/-- The memory with its accesses uncounted. -/
def contents (m : Memory) : Memory := { m with reads := 0, writes := 0 }

theorem contents_loadByte (m : Memory) (a : Address) (b : Byte) :
    (m.loadByte a b).contents = m.contents.loadByte a b := by
  by_cases h : a < m.capacity <;> simp [loadByte, contents, h]

theorem contents_loadBytes (m : Memory) (a : Address) (bs : List Byte) :
    (m.loadBytes a bs).contents = m.contents.loadBytes a bs := by
  induction bs generalizing m a with
  | nil => rfl
  | cons b bs ih => simp only [loadBytes, ih, contents_loadByte]

theorem contents_writeByte (m : Memory) (a : Address) (b : Byte) :
    (m.writeByte a b).contents = if m.contents.writable then m.contents.loadByte a b else m.contents := by
  simp only [writeByte, apply_ite contents, contents_loadByte]
  rfl

theorem contents_writeWord (m : Memory) (a : Address) (w : Word) :
    (m.writeWord a w).contents = if m.contents.writable then m.contents.loadWord a w else m.contents := by
  simp only [writeWord, loadWord, apply_ite contents, contents_loadBytes]
  rfl

end Memory

/-! ## Devices -/

namespace Device

def contents : Device → Device
  | memory m => memory m.contents
  | d => d

variable {d d' : Device}

theorem peekWord_congr (h : d.contents = d'.contents) (o : Address) : d.peekWord o = d'.peekWord o := by
  have same (d : Device) : d.contents.peekWord o = d.peekWord o := by cases d <;> rfl
  rw [← same, h, same]

theorem readWord_fst (d : Device) (o : Address) : (d.readWord o).1 = d.peekWord o := by
  cases d <;> rfl

theorem readWord_congr (h : d.contents = d'.contents) (o : Address) :
    (d.readWord o).1 = (d'.readWord o).1 ∧ (d.readWord o).2.contents = (d'.readWord o).2.contents := by
  have same (d : Device) : (d.readWord o).2.contents = (d.contents.readWord o).2.contents := by cases d <;> rfl
  exact ⟨by rw [readWord_fst, readWord_fst, peekWord_congr h], by rw [same, h, ← same]⟩

/-- Reading takes nothing but a byte off a UART's queue. -/
theorem contents_readWord (d : Device) {o : Address} (h : d.isUart → o ≠ 0) :
    (d.readWord o).2.contents = d.contents := by
  cases d with
  | memory m => rfl
  | uart u => simp [readWord, Uart.readWord, h rfl]
  | gpio g => rfl

theorem readByte_congr (h : d.contents = d'.contents) (o : Address) :
    (d.readByte o).1 = (d'.readByte o).1 ∧ (d.readByte o).2.contents = (d'.readByte o).2.contents := by
  have value (d : Device) : (d.readByte o).1 = (d.contents.readByte o).1 := by cases d <;> rfl
  have after (d : Device) : (d.readByte o).2.contents = (d.contents.readByte o).2.contents := by cases d <;> rfl
  exact ⟨by rw [value, h, ← value], by rw [after, h, ← after]⟩

theorem writeWord_congr (h : d.contents = d'.contents) (o : Address) (w : Word) :
    (d.writeWord o w).1.contents = (d'.writeWord o w).1.contents ∧ (d.writeWord o w).2 = (d'.writeWord o w).2 := by
  cases d <;> cases d' <;> simp only [contents, reduceCtorEq, memory.injEq] at h
  · simp only [writeWord, contents, Memory.contents_writeWord, h, and_self]
  all_goals cases h; exact ⟨rfl, rfl⟩

theorem writeByte_congr (h : d.contents = d'.contents) (o : Address) (b : Byte) :
    (d.writeByte o b).1.contents = (d'.writeByte o b).1.contents ∧ (d.writeByte o b).2 = (d'.writeByte o b).2 := by
  cases d <;> cases d' <;> simp only [contents, reduceCtorEq, memory.injEq] at h
  · simp only [writeByte, contents, Memory.contents_writeByte, h, and_self]
  all_goals cases h; exact ⟨rfl, rfl⟩

end Device

/-! ## Buses -/

namespace Bus

variable {n : Nat}

def contents (b : Bus n) : Bus n :=
  { b with devices := b.devices.map Device.contents, fetches := 0, reads := 0, writes := 0, unmapped := 0 }

variable {b b' : Bus n}

theorem find?_congr (h : b.contents = b'.contents) (a : Address) : b.find? a = b'.find? a := by
  have same (b : Bus n) : b.contents.find? a = b.find? a := rfl
  rw [← same, h, same]

theorem device_congr (h : b.contents = b'.contents) (i : Fin n) :
    (b.devices.get i).contents = (b'.devices.get i).contents := by
  have same (b : Bus n) : b.contents.devices.get i = (b.devices.get i).contents := by
    show b.contents.devices[i] = b.devices[i].contents
    simp [contents]
  rw [← same, h, same]

theorem setDevice_congr (h : b.contents = b'.contents) (i : Fin n) {d d' : Device} (hd : d.contents = d'.contents) :
    (b.setDevice i d).contents = (b'.setDevice i d').contents := by
  have after (b : Bus n) (d : Device) : (b.setDevice i d).contents = b.contents.setDevice i d.contents := by
    simp [contents, setDevice, Vector.map_set]
  rw [after, h, hd, ← after]

theorem contents_setDevice_of_eq (b : Bus n) (i : Fin n) {d : Device} (hd : d.contents = (b.devices.get i).contents) :
    (b.setDevice i d).contents = b.contents := by
  have self : b.setDevice i (b.devices.get i) = b := by
    show b.setDevice i b.devices[i] = b
    simp [setDevice]
  rw [setDevice_congr rfl i hd, self]

theorem settle_congr (h : b.contents = b'.contents) (i : Fin n) {x x' : Device × Option Byte}
    (hd : x.1.contents = x'.1.contents) (he : x.2 = x'.2) : (b.settle i x).contents = (b'.settle i x').contents := by
  obtain ⟨d, e⟩ := x
  obtain ⟨d', e'⟩ := x'
  cases he
  have hs := setDevice_congr h i hd
  cases e with
  | none => exact hs
  | some c => exact congrArg (fun b : Bus n => { b with console := c :: b.console }) hs

theorem peek_congr (h : b.contents = b'.contents) (a : Address) : b.peek a = b'.peek a := by
  simp only [peek, find?_congr h]
  split
  · rfl
  · exact Device.peekWord_congr (device_congr h _) _

/-! ## Reading -/

theorem readWordAt_congr (h : b.contents = b'.contents) (a : Address) :
    (b.readWordAt a).1 = (b'.readWordAt a).1 ∧ (b.readWordAt a).2.contents = (b'.readWordAt a).2.contents := by
  simp only [readWordAt, find?_congr h]
  split
  · exact ⟨rfl, h⟩
  · rename_i r _
    obtain ⟨hw, hd⟩ := Device.readWord_congr (device_congr h r.device) (a - r.base)
    exact ⟨hw, setDevice_congr h r.device hd⟩

theorem fetch_congr (h : b.contents = b'.contents) (a : Address) :
    (b.fetch a).1 = (b'.fetch a).1 ∧ (b.fetch a).2.contents = (b'.fetch a).2.contents :=
  have counted : ({ b with fetches := b.fetches + 1 } : Bus n).contents =
    ({ b' with fetches := b'.fetches + 1 } : Bus n).contents := h
  readWordAt_congr counted (align a)

theorem counted_read (h : b.contents = b'.contents) :
    ({ b with reads := b.reads + 1 } : Bus n).contents = ({ b' with reads := b'.reads + 1 } : Bus n).contents := h

theorem read_congr (h : b.contents = b'.contents) (a : Address) :
    (b.read a).1 = (b'.read a).1 ∧ (b.read a).2.contents = (b'.read a).2.contents :=
  readWordAt_congr (counted_read h) (align a)

theorem readByte_congr (h : b.contents = b'.contents) (a : Address) :
    (b.readByte a).1 = (b'.readByte a).1 ∧ (b.readByte a).2.contents = (b'.readByte a).2.contents := by
  simp only [readByte, find?_congr (counted_read h)]
  split
  · exact ⟨rfl, h⟩
  · rename_i r _
    obtain ⟨hw, hd⟩ := Device.readByte_congr (device_congr h r.device) (a - r.base)
    exact ⟨hw, setDevice_congr (counted_read h) r.device hd⟩

theorem readWordAt_fst (b : Bus n) (a : Address) :
    (b.readWordAt a).1 = match b.find? a with
      | none => 0
      | some r => (b.devices.get r.device).peekWord (a - r.base) := by
  unfold readWordAt
  cases b.find? a with
  | none => rfl
  | some r => exact Device.readWord_fst (b.devices.get r.device) (a - r.base)

/-- A fetch reads what a peek sees. -/
theorem fetch_fst (b : Bus n) (a : Address) : (b.fetch a).1 = b.peek a :=
  readWordAt_fst { b with fetches := b.fetches + 1 } (align a)

theorem read_fst (b : Bus n) (a : Address) : (b.read a).1 = b.peek a :=
  readWordAt_fst { b with reads := b.reads + 1 } (align a)

/-! ## Writing -/

theorem counted_write (h : b.contents = b'.contents) :
    ({ b with writes := b.writes + 1 } : Bus n).contents = ({ b' with writes := b'.writes + 1 } : Bus n).contents := h

theorem write_congr (h : b.contents = b'.contents) (a : Address) (w : Word) :
    (b.write a w).contents = (b'.write a w).contents := by
  simp only [write, find?_congr (counted_write h)]
  split
  · exact h
  · rename_i r _
    obtain ⟨hd, he⟩ := Device.writeWord_congr (device_congr h r.device) (align a - r.base) w
    exact settle_congr (counted_write h) r.device hd he

theorem writeByte_congr (h : b.contents = b'.contents) (a : Address) (v : Byte) :
    (b.writeByte a v).contents = (b'.writeByte a v).contents := by
  simp only [writeByte, find?_congr (counted_write h)]
  split
  · exact h
  · rename_i r _
    obtain ⟨hd, he⟩ := Device.writeByte_congr (device_congr h r.device) (a - r.base) v
    exact settle_congr (counted_write h) r.device hd he

/-! ## The access of an instruction -/

/-- Only a store looks at the value to store. -/
theorem access_congr (h : b.contents = b'.contents) (i : Instruction) (a : Address) {v v' : Word}
    (hv : i.memWrite → v = v') :
    (b.access i a v).1 = (b'.access i a v').1 ∧ (b.access i a v).2.contents = (b'.access i a v').2.contents := by
  unfold access
  split
  · split
    · obtain ⟨hw, hc⟩ := readByte_congr h a
      exact ⟨congrArg UInt8.toUInt32 hw, hc⟩
    · exact read_congr h a
  split
  · rename_i hw
    rw [hv hw]
    split
    · exact ⟨rfl, writeByte_congr h a v'.toUInt8⟩
    · exact ⟨rfl, write_congr h a v'⟩
  · exact ⟨rfl, h⟩

end Bus

end FiveStageArm
