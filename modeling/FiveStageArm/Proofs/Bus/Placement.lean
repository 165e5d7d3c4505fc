/-
  FiveStageArm.Proofs.Bus.Placement — where the board keeps its bytes. The three memories
  store below 0x20000, the first of them for a loader only; CTRL, BAUD, OUT and DIR store a
  word each; STATUS and IN belong to the other side of their devices; and no region lies
  between the memories and the UART or above the pins.

  Every store finds the region of its address and hands the device the offset (`storeAt`).
  Regions hold whole words and no two share a device, so a byte changes only by a store to
  its own region, and then as the device has it.

  Proved, for a byte that the board stores:
  - `Wired.peekByte_loadWord` / `Wired.peekByte_loadByte`: what a loader's store makes of it.
  - `Wired.peekByte_write` / `Wired.peekByte_writeByte`: the same of a store through the
    bus, and nothing where the byte is protected.
-/

import FiveStageArm.Proofs.Bus.Bytes
import FiveStageArm.Proofs.Bus.Mapping
import FiveStageArm.Proofs.Bus.Wired

namespace FiveStageArm

/-! ## Kinds of addresses -/

namespace Bus

open Board

/-- The three memories, CTRL and BAUD, OUT and DIR. -/
def Stored (c : Address) : Prop :=
  c.toNat < 0x20000 ∨ align c = uartBase + 8 ∨ align c = uartBase + 12 ∨ align c = gpioBase ∨
    align c = gpioBase + 8

/-- The boot memory, where the processor cannot store. -/
def Protected (c : Address) : Prop := c.toNat < 0x1000

/-- STATUS and IN. -/
def IsInput (c : Address) : Prop := align c = uartBase + 4 ∨ align c = gpioBase + 4

/-- Between the memories and the UART, and above the pins. -/
def Outside (c : Address) : Prop := (0x20000 ≤ c.toNat ∧ c.toNat < 0xFFFF0000) ∨ 0xFFFF0200 ≤ c.toNat

instance (c : Address) : Decidable (Stored c) := inferInstanceAs (Decidable (_ ∨ _))

instance (c : Address) : Decidable (Protected c) := inferInstanceAs (Decidable (_ < _))

instance (c : Address) : Decidable (IsInput c) := inferInstanceAs (Decidable (_ ∨ _))

instance (c : Address) : Decidable (Outside c) := inferInstanceAs (Decidable (_ ∨ _))

section

variable {a c : Address} (h : align c = align a)

include h

/-- A word is stored as a whole. -/
theorem stored_of_align (ha : Stored a) : Stored c := by
  have same := congrArg UInt32.toNat h
  rw [toNat_align, toNat_align] at same
  unfold Stored at ha ⊢
  rw [h]
  rcases ha with low | word
  · exact Or.inl (by omega)
  · exact Or.inr word

theorem protected_of_align : Protected c ↔ Protected a := by
  have same := congrArg UInt32.toNat h
  rw [toNat_align, toNat_align] at same
  unfold Protected
  omega

end

theorem outside_align {a : Address} (h : Outside a) : Outside (align a) := by
  have whole := toNat_align a
  unfold Outside at h ⊢
  omega

/-- A stored word is none that the UART or the pins show of the other side. -/
theorem align_ne_of_stored {c w : Address} (hc : Stored c) (high : 0x20000 ≤ w.toNat)
    (other : w ≠ uartBase + 8 ∧ w ≠ uartBase + 12 ∧ w ≠ gpioBase ∧ w ≠ gpioBase + 8) : align c ≠ w := by
  rintro rfl
  rw [toNat_align] at high
  rcases hc with low | control | baud | out | dir
  · omega
  · exact other.1 control
  · exact other.2.1 baud
  · exact other.2.2.1 out
  · exact other.2.2.2 dir

theorem not_queueWord_of_stored {c : Address} (hc : Stored c) : ¬Wired.QueueWord c := by
  rintro (data | status)
  · exact align_ne_of_stored hc (by decide) (by decide) data
  · exact align_ne_of_stored hc (by decide) (by decide) status

/-! ## Regions of the memory map -/

theorem orderly_memoryMap : Orderly memoryMap := by
  refine ⟨?_, by decide⟩
  unfold Region.Fits
  decide

/-- A region holds whole words. -/
theorem spans_align {r : Region 5} (hr : r ∈ memoryMap) (a : Address) : r.Spans (align a) ↔ r.Spans a := by
  have ends : ∀ r ∈ memoryMap, r.base.toNat % 4 = 0 ∧ r.size.toNat % 4 = 0 := by decide
  obtain ⟨base, size⟩ := ends r hr
  unfold Region.Spans
  rw [toNat_align]
  omega

theorem sub_lt_of_spans {n : Nat} {r : Region n} {c : Address} (h : r.Spans c) : c - r.base < r.size := by
  obtain ⟨low, high⟩ := h
  have := c.toNat_lt
  rw [UInt32.lt_iff_toNat_lt, UInt32.toNat_sub]
  omega

theorem spans_of_align {r : Region 5} {c k : Address} (hr : r.Fits) (e : align c = r.base + k)
    (hk : k.toNat + 4 ≤ r.size.toNat) : r.Spans c := by
  have bound := hr.2
  have whole := toNat_align c
  rw [e, UInt32.toNat_add] at whole
  constructor <;> omega

theorem offset_of_align {c base k : Address} (hb : align base = base) (e : align c = base + k) : align (c - base) = k := by
  rw [align_sub hb, e, UInt32.add_comm, UInt32.add_sub_cancel]

/-- A stored byte is one that some device stores, and the boot memory's are protected. -/
theorem spans_stored {c : Address} (hc : Stored c) :
    ∃ r ∈ memoryMap, r.Spans c ∧ (freshDevices.get r.device).Stores (c - r.base) ∧
      ((freshDevices.get r.device).writable ↔ ¬Protected c) := by
  have fits := orderly_memoryMap.fits
  have unprotected {r : Region 5} (h : r.Spans c) (hr : 0x1000 ≤ r.base.toNat) : ¬Protected c :=
    Nat.not_lt.mpr (Nat.le_trans hr h.1)
  rcases hc with low | control | baud | out | dir
  · by_cases boot : c.toNat < 0x1000
    · have spans : Region.Spans ⟨0, 0x1000, bootRom⟩ c := ⟨Nat.zero_le _, boot⟩
      exact ⟨_, by decide, spans, sub_lt_of_spans spans, iff_of_false Bool.false_ne_true fun h => h boot⟩
    by_cases program : c.toNat < 0x10000
    · have spans : Region.Spans ⟨0x1000, 0xF000, programRam⟩ c := ⟨Nat.not_lt.mp boot, program⟩
      exact ⟨_, by decide, spans, sub_lt_of_spans spans, iff_of_true rfl boot⟩
    · have spans : Region.Spans ⟨0x10000, 0x10000, dataRam⟩ c := ⟨Nat.not_lt.mp program, low⟩
      exact ⟨_, by decide, spans, sub_lt_of_spans spans, iff_of_true rfl boot⟩
  · have spans : Region.Spans ⟨uartBase, 0x100, uartSlot⟩ c := spans_of_align (fits _ (by decide)) control (by decide)
    exact ⟨_, by decide, spans, Or.inl (offset_of_align rfl control), iff_of_true rfl (unprotected spans (by decide))⟩
  · have spans : Region.Spans ⟨uartBase, 0x100, uartSlot⟩ c := spans_of_align (fits _ (by decide)) baud (by decide)
    exact ⟨_, by decide, spans, Or.inr (offset_of_align rfl baud), iff_of_true rfl (unprotected spans (by decide))⟩
  · have first : align c = gpioBase + 0 := out
    have spans : Region.Spans ⟨gpioBase, 0x100, gpioSlot⟩ c := spans_of_align (fits _ (by decide)) first (by decide)
    exact ⟨_, by decide, spans, Or.inl (offset_of_align rfl first), iff_of_true rfl (unprotected spans (by decide))⟩
  · have spans : Region.Spans ⟨gpioBase, 0x100, gpioSlot⟩ c := spans_of_align (fits _ (by decide)) dir (by decide)
    exact ⟨_, by decide, spans, Or.inr (offset_of_align rfl dir), iff_of_true rfl (unprotected spans (by decide))⟩

theorem spans_input {c : Address} (hc : IsInput c) :
    ∃ r ∈ memoryMap, r.Spans (align c) ∧ (freshDevices.get r.device).IsInput (align c - r.base) := by
  have fits := orderly_memoryMap.fits
  have offset {base : Address} (hb : align base = base) (e : align c = base + 4) : align c - base = 4 := by
    rw [← align_sub hb, offset_of_align hb e]
  rcases hc with status | inputs
  · have spans : Region.Spans ⟨uartBase, 0x100, uartSlot⟩ c := spans_of_align (fits _ (by decide)) status (by decide)
    exact ⟨_, by decide, (spans_align (by decide) c).mpr spans, offset rfl status⟩
  · have spans : Region.Spans ⟨gpioBase, 0x100, gpioSlot⟩ c := spans_of_align (fits _ (by decide)) inputs (by decide)
    exact ⟨_, by decide, (spans_align (by decide) c).mpr spans, offset rfl inputs⟩

theorem not_spans_outside {c : Address} (hc : Outside c) : ∀ r ∈ memoryMap, ¬r.Spans c := by
  have bounds : ∀ r ∈ memoryMap, r.base.toNat + r.size.toNat ≤ 0x20000 ∨
      0xFFFF0000 ≤ r.base.toNat ∧ r.base.toNat + r.size.toNat ≤ 0xFFFF0200 := by decide
  rintro r hr ⟨low, high⟩
  have bound := bounds r hr
  unfold Outside at hc
  omega

/-! ## Devices of a wired board -/

theorem stores_of_blank {d e : Device} (h : d.blank = e.blank) (o : Address) : d.Stores o ↔ e.Stores o := by
  have blank (d : Device) : d.blank.Stores o ↔ d.Stores o := by
    cases d <;> exact Iff.rfl
  rw [← blank, h, blank]

theorem writable_of_blank {d e : Device} (h : d.blank = e.blank) : d.writable = e.writable := by
  have blank (d : Device) : d.blank.writable = d.writable := by
    cases d <;> rfl
  rw [← blank, h, blank]

theorem isInput_of_blank {d e : Device} (h : d.blank = e.blank) (o : Address) : d.IsInput o ↔ e.IsInput o := by
  have blank (d : Device) : d.blank.IsInput o ↔ d.IsInput o := by
    cases d <;> exact Iff.rfl
  rw [← blank, h, blank]

namespace Wired

variable {b : Board} (h : b.Wired)

include h

theorem find?_eq_some_iff {a : Address} {r : Region 5} : b.find? a = some r ↔ r ∈ memoryMap ∧ r.Spans a := by
  have orderly : Orderly b.regions := h.regions ▸ orderly_memoryMap
  rw [Bus.find?_eq_some_iff orderly, h.regions]

theorem find?_align (a : Address) : b.find? (align a) = b.find? a := by
  refine Option.ext fun r => ?_
  rw [h.find?_eq_some_iff, h.find?_eq_some_iff]
  exact and_congr_right fun hr => spans_align hr a

theorem find?_stored {c : Address} (hc : Stored c) :
    ∃ r, b.find? c = some r ∧ (b.devices.get r.device).Stores (c - r.base) ∧
      ((b.devices.get r.device).writable ↔ ¬Protected c) := by
  obtain ⟨r, hr, spans, stores, writable⟩ := spans_stored hc
  have blank : (b.devices.get r.device).blank = (freshDevices.get r.device).blank := h.devices r.device
  refine ⟨r, h.find?_eq_some_iff.mpr ⟨hr, spans⟩, (stores_of_blank blank _).mpr stores, ?_⟩
  rw [writable_of_blank blank]
  exact writable

theorem find?_input {c : Address} (hc : IsInput c) :
    ∃ r, b.find? (align c) = some r ∧ (b.devices.get r.device).IsInput (align c - r.base) := by
  obtain ⟨r, hr, spans, shows⟩ := spans_input hc
  have blank : (b.devices.get r.device).blank = (freshDevices.get r.device).blank := h.devices r.device
  exact ⟨r, h.find?_eq_some_iff.mpr ⟨hr, spans⟩, (isInput_of_blank blank _).mpr shows⟩

theorem find?_outside {a : Address} (ha : Outside a) : b.find? a = none :=
  Option.eq_none_iff_forall_ne_some.mpr fun r found =>
    have ⟨hr, spans⟩ := h.find?_eq_some_iff.mp found
    not_spans_outside ha r hr spans

theorem find?_align_outside {a : Address} (ha : Outside a) : b.find? (align a) = none :=
  h.find?_outside (outside_align ha)

/-- The board's bytes are its devices' bytes. -/
theorem peekByte_eq {c : Address} {r : Region 5} (hc : b.find? c = some r) :
    b.peekByte c = (b.devices.get r.device).peekByte (c - r.base) := by
  have hb := base_aligned r (h.find?_eq_some_iff.mp hc).1
  unfold Bus.peekByte Device.peekByte peek
  rw [h.find?_align, hc, align_sub hb, lane_sub hb]
  rfl

end Wired

/-! ## Stores -/

/-- Any store of a device, at the address that leads to it. -/
def storeAt {n : Nat} (b : Bus n) (a : Address) (f : Device → Address → Device × Option Byte) : Bus n :=
  match b.find? a with
  | none => b
  | some r => b.settle r.device (f (b.devices.get r.device) (a - r.base))

/-- The counters are all that a store through the bus adds. -/
theorem peek_write_eq {n : Nat} (b : Bus n) (a c : Address) (w : Word) :
    (b.write a w).peek c = (b.storeAt (align a) (·.writeWord · w)).peek c := by
  have counted : ({ b with writes := b.writes + 1 } : Bus n).find? (align a) = b.find? (align a) := rfl
  unfold write storeAt
  simp only [counted]
  cases b.find? (align a) with
  | none => rfl
  | some r =>
    show (settle _ _ (Device.writeWord (b.devices.get r.device) _ w)).peek c = (settle _ _ _).peek c
    rcases (b.devices.get r.device).writeWord (align a - r.base) w with ⟨d, _ | v⟩ <;> rfl

theorem peek_writeByte_eq {n : Nat} (b : Bus n) (a c : Address) (v : Byte) :
    (b.writeByte a v).peek c = (b.storeAt a (·.writeByte · v)).peek c := by
  have counted : ({ b with writes := b.writes + 1 } : Bus n).find? a = b.find? a := rfl
  unfold writeByte storeAt
  simp only [counted]
  cases b.find? a with
  | none => rfl
  | some r =>
    show (settle _ _ (Device.writeByte (b.devices.get r.device) _ v)).peek c = (settle _ _ _).peek c
    rcases (b.devices.get r.device).writeByte (a - r.base) v with ⟨d, _ | e⟩ <;> rfl

theorem get_settle {n : Nat} (b : Bus n) (i j : Fin n) (x : Device × Option Byte) :
    (b.settle i x).devices.get j = if i = j then x.1 else b.devices.get j := by
  obtain ⟨d, _ | v⟩ := x
  · exact b.get_setDevice i j d
  · exact b.get_setDevice i j d

namespace Wired

variable {b : Board} (h : b.Wired)

include h

/-- A store reaches the words of one region only. -/
theorem peek_storeAt {a c : Address} {r : Region 5} (hc : b.find? (align c) = some r)
    (f : Device → Address → Device × Option Byte) :
    (b.storeAt a f).peek c =
      if b.find? a = some r then (f (b.devices.get r.device) (a - r.base)).1.peekWord (align c - r.base)
      else b.peek c := by
  have here (b' : Board) (found : b'.find? (align c) = some r) :
      b'.peek c = (b'.devices.get r.device).peekWord (align c - r.base) := by
    unfold peek
    rw [found]
    rfl
  unfold storeAt
  cases ha : b.find? a with
  | none => simp
  | some s =>
    have found : (b.settle s.device (f (b.devices.get s.device) (a - s.base))).find? (align c) = some r := by
      rcases f (b.devices.get s.device) (a - s.base) with ⟨d, _ | v⟩ <;> exact hc
    simp only [here _ found, get_settle, Option.some.injEq]
    by_cases e : s = r
    · subst e
      rw [if_pos rfl, if_pos rfl]
    · have apart : s.device ≠ r.device := fun same =>
        e (region_of_device r (h.find?_eq_some_iff.mp hc).1 s (h.find?_eq_some_iff.mp ha).1 same)
      rw [if_neg apart, if_neg e, here b hc]

/-- What a store makes of a byte, from what the device makes of it. -/
theorem peekByte_storeAt {a c : Address} {r : Region 5} (hc : b.find? c = some r)
    {f : Device → Address → Device × Option Byte} {hit : Prop} [Decidable hit] {v : Byte}
    (reach : hit → b.find? a = some r)
    (effect : (f (b.devices.get r.device) (a - r.base)).1.peekByte (c - r.base) =
      if hit then v else (b.devices.get r.device).peekByte (c - r.base)) :
    (b.storeAt a f).peekByte c = if hit then v else b.peekByte c := by
  have hb := base_aligned r (h.find?_eq_some_iff.mp hc).1
  have word : b.find? (align c) = some r := by rw [h.find?_align, hc]
  by_cases ha : b.find? a = some r
  · rw [h.peekByte_eq hc, ← effect]
    unfold Bus.peekByte Device.peekByte
    rw [h.peek_storeAt word, if_pos ha, align_sub hb, lane_sub hb]
  · unfold Bus.peekByte
    rw [h.peek_storeAt word, if_neg ha, if_neg fun hits => ha (reach hits)]

/-- Stores that a device's input words ignore leave the board's alone. -/
theorem peek_storeAt_input {a c : Address} (hc : IsInput c) {f : Device → Address → Device × Option Byte}
    (ignored : ∀ (d : Device) (o k : Address), d.IsInput k → (f d o).1.peekWord k = d.peekWord k) :
    (b.storeAt a f).peek c = b.peek c := by
  obtain ⟨r, found, shows⟩ := h.find?_input hc
  rw [h.peek_storeAt found]
  split
  · rw [ignored _ _ _ shows, peek, found]
    rfl
  · rfl

variable {a c : Address} (hc : Stored c)

include hc

theorem peekByte_loadWord (ha : align a = a) (w : Word) :
    (b.loadWord a w).peekByte c = if align c = a then lane w c else b.peekByte c := by
  obtain ⟨r, found, stores, -⟩ := h.find?_stored hc
  have hb := base_aligned r (h.find?_eq_some_iff.mp found).1
  have aligned : align (a - r.base) = a - r.base := by rw [align_sub hb, ha]
  refine h.peekByte_storeAt (f := (·.loadWord · w)) found (fun e => ?_) ?_
  · rw [← e, h.find?_align, found]
  · rw [Device.peekByte_loadWord _ w aligned stores, align_sub hb, lane_sub hb]
    simp only [UInt32.sub_left_inj]

theorem peekByte_loadByte (v : Byte) : (b.loadByte a v).peekByte c = if c = a then v else b.peekByte c := by
  obtain ⟨r, found, stores, -⟩ := h.find?_stored hc
  refine h.peekByte_storeAt (f := (·.loadByte · v)) found (fun e => ?_) ?_
  · rw [← e, found]
  · rw [Device.peekByte_loadByte _ v stores]
    simp only [UInt32.sub_left_inj]

theorem peekByte_write (w : Word) :
    (b.write a w).peekByte c = if align c = align a ∧ ¬Protected c then lane w c else b.peekByte c := by
  obtain ⟨r, found, stores, writable⟩ := h.find?_stored hc
  have hb := base_aligned r (h.find?_eq_some_iff.mp found).1
  have aligned : align (align a - r.base) = align a - r.base := by rw [align_sub hb, align_align]
  have stored : (b.write a w).peekByte c = (b.storeAt (align a) (·.writeWord · w)).peekByte c := by
    rw [Bus.peekByte, peek_write_eq, ← Bus.peekByte]
  rw [stored]
  refine h.peekByte_storeAt found (fun both => ?_) ?_
  · rw [← both.1, h.find?_align, found]
  · rw [Device.peekByte_writeWord, Device.peekByte_loadWord _ w aligned stores, align_sub hb, lane_sub hb]
    by_cases boot : Protected c <;> simp [writable, boot]

theorem peekByte_writeByte (v : Byte) :
    (b.writeByte a v).peekByte c = if c = a ∧ ¬Protected c then v else b.peekByte c := by
  obtain ⟨r, found, stores, writable⟩ := h.find?_stored hc
  have stored : (b.writeByte a v).peekByte c = (b.storeAt a (·.writeByte · v)).peekByte c := by
    rw [Bus.peekByte, peek_writeByte_eq, ← Bus.peekByte]
  rw [stored]
  refine h.peekByte_storeAt found (fun both => ?_) ?_
  · rw [← both.1, found]
  · rw [Device.peekByte_writeByte, Device.peekByte_loadByte _ v stores]
    by_cases boot : Protected c <;> simp [writable, boot]

end Wired

/-! ## The other side -/

namespace Wired

variable {b : Board} (h : b.Wired) {c : Address} (hc : Stored c)

include h hc

/-- Received bytes show in DATA and STATUS only. -/
theorem peek_inject (bytes : List Byte) : (b.inject bytes).peek c = b.peek c := by
  have region : (⟨uartBase, 0x100, uartSlot⟩ : Region 5) ∈ memoryMap := by decide
  have shown : ¬Device.ShowsQueue (align c - uartBase) := fun shows =>
    not_queueWord_of_stored hc (queueWord_of_offset shows)
  obtain ⟨data, status⟩ := not_or.mp shown
  refine h.peek_setDevice region ?_
  show (b.uart.inject bytes).peekWord (align c - uartBase) = (b.devices.get uartSlot).peekWord (align c - uartBase)
  rw [h.device_uart, Device.peekWord, Uart.peekWord, Uart.peekWord]
  simp only [data, status, if_false]
  rfl

/-- Driven pins show in IN only. -/
theorem peek_setInputs (w : Word) : (b.setInputs w).peek c = b.peek c := by
  have region : (⟨gpioBase, 0x100, gpioSlot⟩ : Region 5) ∈ memoryMap := by decide
  have inputs : align c - gpioBase ≠ 4 := by
    intro e
    refine align_ne_of_stored hc (w := gpioBase + 4) (by decide) (by decide) ?_
    rw [← e, UInt32.add_comm, UInt32.sub_add_cancel]
  refine h.peek_setDevice region ?_
  show (b.gpio.setInputs w).readWord (align c - gpioBase) = (b.devices.get gpioSlot).peekWord (align c - gpioBase)
  rw [h.device_gpio, Device.peekWord, Gpio.readWord, Gpio.readWord]
  simp only [inputs, if_false]
  rfl

end Wired

end Bus

end FiveStageArm
