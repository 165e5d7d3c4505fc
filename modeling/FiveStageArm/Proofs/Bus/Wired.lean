/-
  FiveStageArm.Proofs.Bus.Wired — boards as they are built: the regions of the memory map,
  each slot with its own kind of device, and any contents at all. No access rewires a
  board, since none changes how it is built (`Wired.of_build`).

  Proved, on wired boards:
  - A store changes no word but the one it goes to (`peek_write`, `peek_writeByte`).
  - A load changes no word, except that taking a byte off the UART's queue, by a load from
    DATA, changes what DATA and STATUS show (`peek_read`, `peek_readByte`).
  - A fetch from anywhere but DATA keeps the contents (`contents_fetch`).
-/

import FiveStageArm.Proofs.Bus.Build
import FiveStageArm.Proofs.Bus.Contents
import FiveStageArm.Board

namespace FiveStageArm

/-! ## How a board is wired -/

namespace Device

/-- The device as it was built, empty and idle. -/
def blank : Device → Device
  | memory m => memory m.reset
  | uart _ => uart .idle
  | gpio _ => gpio .idle

theorem isUart_blank (d : Device) : d.blank.isUart = d.isUart := by
  cases d <;> rfl

theorem blank_reset (d : Device) : d.reset.blank = d.blank := by
  cases d <;> rfl

end Device

namespace Bus

open Board

theorem get_setDevice {n : Nat} (b : Bus n) (i j : Fin n) (d : Device) :
    (b.setDevice i d).devices.get j = if i = j then d else b.devices.get j := by
  show (b.devices.set i d)[j] = if i = j then d else b.devices[j]
  simp [Vector.getElem_set, Fin.ext_iff]

/-- The memory map, and in each slot a device of the slot's kind. -/
structure Wired (b : Board) : Prop where
  regions : b.regions = memoryMap
  devices : ∀ i : Fin 5, b.devices[i].blank = freshDevices[i].blank

theorem wired_empty : Board.empty.Wired := ⟨rfl, fun _ => rfl⟩

namespace Wired

variable {b : Board}

/-- Boards of one build are wired alike. -/
theorem of_build (h : b.Wired) {b' : Board} (e : b'.build = b.build) : b'.Wired := by
  refine ⟨(congrArg Prod.fst e).trans h.regions, fun i => ?_⟩
  show (b'.devices.get i).blank = _
  rw [← Device.blank_reset, reset_device_of_build e, Device.blank_reset]
  exact h.devices i

theorem setDevice (h : b.Wired) {i : Fin 5} {d : Device} (hd : d.blank = (freshDevices.get i).blank) :
    (b.setDevice i d).Wired := by
  refine ⟨h.regions, fun j => ?_⟩
  show ((b.setDevice i d).devices.get j).blank = _
  rw [get_setDevice]
  split
  · rename_i e
    exact e ▸ hd
  · exact h.devices j

theorem inject (h : b.Wired) (bytes : List Byte) : (b.inject bytes).Wired := h.setDevice rfl

theorem setInputs (h : b.Wired) (w : Word) : (b.setInputs w).Wired := h.setDevice rfl

theorem fetch (h : b.Wired) (a : Address) : (b.fetch a).2.Wired := h.of_build (b.build_fetch a)

theorem loadWords (h : b.Wired) (a : Address) (ws : List Word) : (b.loadWords a ws).Wired :=
  h.of_build (b.build_loadWords a ws)

/-- A region leads to every device. -/
theorem mapped (h : b.Wired) (i : Fin 5) : b.regions.any (·.device == i) := by
  rw [h.regions]
  revert i
  decide

theorem device_uart (h : b.Wired) : b.devices.get uartSlot = .uart b.uart := by
  have kind : (b.devices.get uartSlot).blank = .uart .idle := h.devices uartSlot
  cases hd : b.devices.get uartSlot with
  | uart u =>
    unfold Board.uart
    rw [show b.devices[uartSlot] = _ from hd]
  | memory m | gpio g =>
    rw [hd] at kind
    cases kind

theorem device_gpio (h : b.Wired) : b.devices.get gpioSlot = .gpio b.gpio := by
  have kind : (b.devices.get gpioSlot).blank = .gpio .idle := h.devices gpioSlot
  cases hd : b.devices.get gpioSlot with
  | gpio g =>
    unfold Board.gpio
    rw [show b.devices[gpioSlot] = _ from hd]
  | memory m | uart u =>
    rw [hd] at kind
    cases kind

/-! ## What an access leaves alone -/

theorem base_aligned : ∀ r ∈ memoryMap, align r.base = r.base := by decide

theorem region_of_device : ∀ r ∈ memoryMap, ∀ s ∈ memoryMap, s.device = r.device → s = r := by decide

theorem uart_region : ∀ r ∈ memoryMap, freshDevices[r.device].isUart → r.base = uartBase := by decide

theorem mem_of_find? (h : b.Wired) {a : Address} {r : Region 5} (hr : b.find? a = some r) : r ∈ memoryMap :=
  h.regions ▸ List.mem_of_find?_eq_some hr

/-- On a wired board a device is behind one region only. -/
theorem peek_setDevice (h : b.Wired) {r : Region 5} (hr : r ∈ memoryMap) {d : Device} {c : Address}
    (hd : d.peekWord (align c - r.base) = b.devices[r.device].peekWord (align c - r.base)) :
    (b.setDevice r.device d).peek c = b.peek c := by
  have hf : (b.setDevice r.device d).find? (align c) = b.find? (align c) := rfl
  simp only [Bus.peek, hf]
  cases hs : b.find? (align c) with
  | none => rfl
  | some s =>
    by_cases e : s.device = r.device
    · obtain rfl := region_of_device r hr s (h.mem_of_find? hs) e
      simpa [Bus.setDevice] using hd
    · have hne : r.device.val ≠ s.device.val := fun h' => e (Fin.ext h'.symm)
      simp [Bus.setDevice, Vector.getElem_set_ne, hne]

theorem peek_settle (h : b.Wired) {r : Region 5} (hr : r ∈ memoryMap) {x : Device × Option Byte} {c : Address}
    (hd : x.1.peekWord (align c - r.base) = b.devices[r.device].peekWord (align c - r.base)) :
    (b.settle r.device x).peek c = b.peek c := by
  obtain ⟨d, e⟩ := x
  cases e with
  | none => exact h.peek_setDevice hr hd
  | some v => exact h.peek_setDevice hr hd

theorem offset_ne {a c base : Address} (h : a ≠ c) : a - base ≠ c - base := by
  intro e
  have e' : a - base + base = c - base + base := by rw [e]
  exact h (by simpa using e')

theorem peek_write (h : b.Wired) {a c : Address} (w : Word) (hc : align a ≠ align c) :
    (b.write a w).peek c = b.peek c := by
  have counted : ({ b with writes := b.writes + 1 } : Board).Wired := ⟨h.regions, h.devices⟩
  unfold Bus.write
  simp only []
  split
  · rfl
  · rename_i r hr
    have hm := counted.mem_of_find? hr
    have aligned (x : Address) : align (align x - r.base) = align x - r.base := by
      rw [align_sub (base_aligned r hm), align_align]
    exact counted.peek_settle hm (Device.peekWord_writeWord _ w (aligned a) (aligned c) (offset_ne hc))

theorem peek_writeByte (h : b.Wired) {a c : Address} (v : Byte) (hc : align a ≠ align c) :
    (b.writeByte a v).peek c = b.peek c := by
  have counted : ({ b with writes := b.writes + 1 } : Board).Wired := ⟨h.regions, h.devices⟩
  unfold Bus.writeByte
  simp only []
  split
  · rfl
  · rename_i r hr
    have hm := counted.mem_of_find? hr
    have offset (x : Address) : align (x - r.base) = align x - r.base := align_sub (base_aligned r hm)
    refine counted.peek_settle hm (Device.peekWord_writeByte _ v ?_ ?_)
    · rw [← offset, align_align]
    · rw [offset]
      exact offset_ne hc

/-- Where the UART shows its queue. -/
def QueueWord (c : Address) : Prop := align c = uartBase ∨ align c = uartBase + 4

theorem queueWord_of_offset {c : Address} (hq : Device.ShowsQueue (align c - uartBase)) : QueueWord c := by
  have e : align c - uartBase + uartBase = align c := UInt32.sub_add_cancel _ _
  rcases hq with hq | hq
  · exact Or.inl (by rw [← e, hq, UInt32.zero_add])
  · exact Or.inr (by rw [← e, hq, UInt32.add_comm])

/-- Offset 0 of a UART is DATA. -/
theorem uart_data (h : b.Wired) {r : Region 5} (hr : r ∈ memoryMap) (hu : b.devices[r.device].isUart) {a : Address}
    (ha : a - r.base = 0) : a = uartBase ∧ r.base = uartBase := by
  rw [← Device.isUart_blank, h.devices, Device.isUart_blank] at hu
  have hb := uart_region r hr hu
  have e : a - r.base + r.base = 0 + r.base := by rw [ha]
  exact ⟨by simpa [hb] using e, hb⟩

theorem peek_readWordAt (h : b.Wired) {a c : Address} (hc : a = uartBase → ¬QueueWord c) :
    (b.readWordAt a).2.peek c = b.peek c := by
  unfold Bus.readWordAt
  split
  · rfl
  · rename_i r hr
    have hm := h.mem_of_find? hr
    refine h.peek_setDevice hm (Device.peekWord_readWord _ fun hu h0 hq => ?_)
    obtain ⟨ha, hb⟩ := h.uart_data hm hu h0
    exact hc ha (queueWord_of_offset (hb ▸ hq))

theorem peek_fetch (h : b.Wired) {a c : Address} (hc : align a = uartBase → ¬QueueWord c) :
    (b.fetch a).2.peek c = b.peek c :=
  have counted : ({ b with fetches := b.fetches + 1 } : Board).Wired := ⟨h.regions, h.devices⟩
  counted.peek_readWordAt hc

theorem peek_read (h : b.Wired) {a c : Address} (hc : align a = uartBase → ¬QueueWord c) :
    (b.read a).2.peek c = b.peek c :=
  have counted : ({ b with reads := b.reads + 1 } : Board).Wired := ⟨h.regions, h.devices⟩
  counted.peek_readWordAt hc

theorem peek_readByte (h : b.Wired) {a c : Address} (hc : align a = uartBase → ¬QueueWord c) :
    (b.readByte a).2.peek c = b.peek c := by
  have counted : ({ b with reads := b.reads + 1 } : Board).Wired := ⟨h.regions, h.devices⟩
  unfold Bus.readByte
  simp only []
  split
  · rfl
  · rename_i r hr
    have hm := counted.mem_of_find? hr
    refine counted.peek_setDevice hm (Device.peekWord_readByte _ fun hu h0 hq => ?_)
    obtain ⟨ha, hb⟩ := counted.uart_data hm hu h0
    exact hc (by rw [ha]; decide) (queueWord_of_offset (hb ▸ hq))

/-- Only a fetch from DATA takes a byte off the queue. -/
theorem contents_fetch (h : b.Wired) {a : Address} (ha : align a ≠ uartBase) : (b.fetch a).2.contents = b.contents := by
  have counted : ({ b with fetches := b.fetches + 1 } : Board).Wired := ⟨h.regions, h.devices⟩
  unfold Bus.fetch Bus.readWordAt
  split
  · rfl
  · rename_i r hr
    have hm := counted.mem_of_find? hr
    refine contents_setDevice_of_eq _ _ (Device.contents_readWord _ fun hu h0 => ?_)
    exact ha (counted.uart_data hm hu h0).1

end Wired

end Bus

end FiveStageArm
