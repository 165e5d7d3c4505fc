/-
  FiveStageArm.Proofs.Bus.Bytes — a device byte by byte. A memory keeps the bytes below its
  capacity, a UART those of CTRL and BAUD, a block of pins those of OUT and DIR
  (`Device.Stores`). A word register keeps bytes too, since a byte store reads the word,
  replaces a lane and writes it back.

  Proved, for the bytes a device stores:
  - A word store changes the four bytes of its word to the word's lanes, a byte store one
    byte, unless the device is write-protected (`peekByte_writeWord`, `peekByte_writeByte`);
    a loader's store changes them in any case (`peekByte_loadWord`, `peekByte_loadByte`).
  - A byte read hands one of them back (`readByte_fst`), and a reset sets them to 0
    (`peekByte_reset`).

  STATUS and IN belong to the other side: no store changes them (`peekWord_writeWord_input`).
-/

import FiveStageArm.Proofs.Lanes
import FiveStageArm.Proofs.Bus.Frame

namespace FiveStageArm

/-! ## Memories -/

namespace Memory

@[simp] theorem capacity_loadByte (m : Memory) (a : Address) (b : Byte) : (m.loadByte a b).capacity = m.capacity := by
  unfold loadByte
  split <;> rfl

/-- The bytes lie from `a` up; fewer than would come round to `a` again. -/
theorem byteAt_loadBytes (m : Memory) (a c : Address) (bs : List Byte) (h : bs.length ≤ 0x100000000) :
    (m.loadBytes a bs).byteAt c =
      if c < m.capacity then bs[(c - a).toNat]?.getD (m.byteAt c) else m.byteAt c := by
  induction bs generalizing m a with
  | nil => simp [loadBytes]
  | cons b bs ih =>
    have shorter : bs.length < 0x100000000 := h
    have one : (1 : Address).toNat = 1 := rfl
    have next : (c - (a + 1)).toNat = if c = a then 0xFFFFFFFF else (c - a).toNat - 1 := by
      have := a.toNat_lt
      have := c.toNat_lt
      rw [UInt32.toNat_sub, UInt32.toNat_sub, UInt32.toNat_add, one]
      split
      · rename_i e
        rw [e]
        omega
      · rename_i ne
        have apart : c.toNat ≠ a.toNat := fun e => ne (UInt32.toNat_inj.mp e)
        omega
    rw [loadBytes, ih _ _ (Nat.le_of_lt shorter), capacity_loadByte, byteAt_loadByte, next]
    by_cases e : c = a
    · subst e
      have past : bs[0xFFFFFFFF]? = none := List.getElem?_eq_none (by omega)
      simp [past]
    · have first : (c - a).toNat = (c - a).toNat - 1 + 1 := by
        have apart : c.toNat ≠ a.toNat := fun e' => e (UInt32.toNat_inj.mp e')
        have := a.toNat_lt
        have := c.toNat_lt
        rw [UInt32.toNat_sub]
        omega
      have other : ¬(a = c ∧ a < m.capacity) := fun both => e both.1.symm
      rw [if_neg e, if_neg other, first, List.getElem?_cons_succ]
      rfl

theorem byteAt_loadWord (m : Memory) (a c : Address) (w : Word) :
    (m.loadWord a w).byteAt c =
      if (c - a).toNat < 4 ∧ c < m.capacity then lane w (c - a) else m.byteAt c := by
  rw [loadWord, wordBytes_eq, byteAt_loadBytes _ _ _ _ (by simp)]
  by_cases hc : c < m.capacity
  · rw [if_pos hc]
    by_cases hk : (c - a).toNat < 4
    · rw [if_pos ⟨hk, hc⟩]
      generalize c - a = k at hk
      rcases eq_of_lt_four hk with rfl | rfl | rfl | rfl <;> rfl
    · rw [if_neg (fun both => hk both.1), List.getElem?_eq_none (by simpa using hk)]
      rfl
  · rw [if_neg hc, if_neg (fun both => hc both.2)]

end Memory

/-! ## UARTs and pins -/

namespace Uart

theorem peekWord_writeWord_self (u : Uart) {o : Address} (w : Word) (h : o = 8 ∨ o = 12) :
    (u.writeWord o w).1.peekWord o = w := by
  rcases h with rfl | rfl <;> rfl

theorem received_writeWord (u : Uart) (o : Address) (w : Word) : (u.writeWord o w).1.received = u.received := by
  unfold writeWord
  repeat' split
  all_goals rfl

theorem received_writeByte (u : Uart) (o : Address) (b : Byte) : (u.writeByte o b).1.received = u.received := by
  unfold writeByte
  split
  · split <;> rfl
  · exact u.received_writeWord _ _

end Uart

namespace Gpio

theorem readWord_writeWord_self (g : Gpio) {o : Address} (w : Word) (h : o = 0 ∨ o = 8) :
    (g.writeWord o w).readWord o = w := by
  rcases h with rfl | rfl <;> rfl

theorem inputs_writeWord (g : Gpio) (o : Address) (w : Word) : (g.writeWord o w).inputs = g.inputs := by
  unfold writeWord
  repeat' split
  all_goals rfl

end Gpio

/-! ## Devices -/

namespace Device

/-- The byte at `o` as a peek sees it. -/
def peekByte (d : Device) (o : Address) : Byte := lane (d.peekWord (align o)) o

/-- The offsets whose bytes are what was stored there. -/
def Stores : Device → Address → Prop
  | memory m, o => o < m.capacity
  | uart _, o => align o = 8 ∨ align o = 12
  | gpio _, o => align o = 0 ∨ align o = 8

/-- Whether a store through the bus takes effect. -/
def writable : Device → Bool
  | memory m => m.writable
  | uart _ => true
  | gpio _ => true

/-- The words that only the other side of the device changes: STATUS and IN. -/
def IsInput : Device → Address → Prop
  | memory _, _ => False
  | uart _, o => o = 4
  | gpio _, o => o = 4

theorem peekByte_memory (m : Memory) (o : Address) : (memory m).peekByte o = m.byteAt o := by
  have place : (o - align o).toNat = o.toNat % 4 := toNat_sub_align o
  have same : lane (m.wordAt (align o)) o = lane (m.wordAt (align o)) (o - align o) := lane_congr _ (by omega)
  rw [peekByte, peekWord, same, Memory.wordAt, lane_ofBytes m.byteAt _ (by omega), add_sub_align]

theorem lane_peekWord_setLane {u w : Word} {o c : Address} {b : Byte} (h : u = setLane w o b) (e : align c = align o) :
    lane u c = if c = o then b else lane w c := by
  rw [h, lane_setLane]
  by_cases hc : c = o
  · rw [if_pos hc, if_pos (by rw [hc])]
  · rw [if_neg hc, if_neg (fun place => hc ((eq_iff_place e).mpr place))]

variable (d : Device) {o c : Address}

/-! ### A loader's stores -/

theorem peekByte_loadWord (w : Word) (ho : align o = o) (hc : d.Stores c) :
    (d.loadWord o w).1.peekByte c = if align c = o then lane w c else d.peekByte c := by
  cases d with
  | memory m =>
    have within : c < m.capacity := hc
    show (memory (m.loadWord o w)).peekByte c = _
    rw [peekByte_memory, peekByte_memory, Memory.byteAt_loadWord]
    by_cases e : align c = o
    · have place : (c - o).toNat = c.toNat % 4 := by rw [← e, toNat_sub_align]
      have same : lane w (c - o) = lane w c := lane_congr w (by omega)
      rw [if_pos e, if_pos ⟨(sub_lt_four_iff ho).mpr e, within⟩, same]
    · rw [if_neg e, if_neg fun both => e ((sub_lt_four_iff ho).mp both.1)]
  | uart u =>
    show lane ((u.writeWord o w).1.peekWord (align c)) c = _
    by_cases e : align c = o
    · rw [if_pos e, e, u.peekWord_writeWord_self w (e ▸ hc)]
    · rw [if_neg e, u.peekWord_writeWord w (Ne.symm e)]
      rfl
  | gpio g =>
    show lane ((g.writeWord o w).readWord (align c)) c = _
    by_cases e : align c = o
    · rw [if_pos e, e, g.readWord_writeWord_self w (e ▸ hc)]
    · rw [if_neg e, g.readWord_writeWord w (Ne.symm e)]
      rfl

theorem peekByte_loadByte (b : Byte) (hc : d.Stores c) :
    (d.loadByte o b).1.peekByte c = if c = o then b else d.peekByte c := by
  cases d with
  | memory m =>
    have within : c < m.capacity := hc
    show (memory (m.loadByte o b)).peekByte c = _
    rw [peekByte_memory, peekByte_memory, Memory.byteAt_loadByte]
    by_cases e : c = o
    · rw [if_pos e, if_pos ⟨e.symm, e ▸ within⟩]
    · rw [if_neg e, if_neg (fun both => e both.1.symm)]
  | uart u =>
    have apart : align c ≠ 0 := by
      rcases hc with e | e <;> rw [e] <;> decide
    show lane ((u.writeByte o b).1.peekWord (align c)) c = _
    unfold Uart.writeByte
    by_cases data : align o = 0
    · have ne : c ≠ o := fun e => apart (by rw [e, data])
      rw [if_pos data, if_neg ne]
      have kept : (if o = 0 then u.transmit b else (u, none)).1.peekWord (align c) = u.peekWord (align c) := by
        split <;> rfl
      rw [kept]
      rfl
    · rw [if_neg data]
      by_cases e : align c = align o
      · rw [e, u.peekWord_writeWord_self _ (e ▸ hc), lane_peekWord_setLane rfl e, ← e]
        rfl
      · have ne : c ≠ o := fun same => e (by rw [same])
        rw [if_neg ne, u.peekWord_writeWord _ (Ne.symm e)]
        rfl
  | gpio g =>
    show lane ((g.writeWord (align o) (setLane (g.readWord (align o)) o b)).readWord (align c)) c = _
    by_cases e : align c = align o
    · rw [e, g.readWord_writeWord_self _ (e ▸ hc), lane_peekWord_setLane rfl e, ← e]
      rfl
    · have ne : c ≠ o := fun same => e (by rw [same])
      rw [if_neg ne, g.readWord_writeWord _ (Ne.symm e)]
      rfl

/-! ### Stores through the bus -/

/-- Through the bus a store does what a loader's does, or nothing to the bytes. -/
theorem peekByte_writeWord (w : Word) :
    (d.writeWord o w).1.peekByte c = if d.writable then (d.loadWord o w).1.peekByte c else d.peekByte c := by
  cases d with
  | memory m =>
    show (memory (m.writeWord o w)).peekByte c = if m.writable then (memory (m.loadWord o w)).peekByte c else _
    unfold Memory.writeWord
    split
    · rw [peekByte_memory, peekByte_memory, Memory.byteAt_loadWord, Memory.byteAt_loadWord]
      rfl
    · rfl
  | uart u => rfl
  | gpio g => rfl

theorem peekByte_writeByte (b : Byte) :
    (d.writeByte o b).1.peekByte c = if d.writable then (d.loadByte o b).1.peekByte c else d.peekByte c := by
  cases d with
  | memory m =>
    show (memory (m.writeByte o b)).peekByte c = if m.writable then (memory (m.loadByte o b)).peekByte c else _
    unfold Memory.writeByte
    split
    · rw [peekByte_memory, peekByte_memory, Memory.byteAt_loadByte, Memory.byteAt_loadByte]
      rfl
    · rfl
  | uart u => rfl
  | gpio g => rfl

/-! ### Reads and resets -/

/-- A byte read hands back what a peek sees, save in the upper lanes of DATA. -/
theorem readByte_fst (h : d.isUart → align o ≠ 0) : (d.readByte o).1 = d.peekByte o := by
  cases d with
  | memory m => exact (peekByte_memory m o).symm
  | uart u =>
    show (u.readByte o).1 = lane (u.peekWord (align o)) o
    unfold Uart.readByte
    rw [if_neg fun both => h rfl both.1]
    rfl
  | gpio g => rfl

theorem peekByte_reset (h : d.Stores c) : d.reset.peekByte c = 0 := by
  cases d with
  | memory m =>
    show (memory m.reset).peekByte c = 0
    rw [peekByte_memory]
    rfl
  | uart u =>
    show lane (u.reset.peekWord (align c)) c = 0
    rcases h with e | e <;> rw [e] <;> exact lane_zero c
  | gpio g =>
    show lane (Gpio.idle.readWord (align c)) c = 0
    rcases h with e | e <;> rw [e] <;> exact lane_zero c

/-! ### What the other side shows -/

theorem peekWord_writeWord_input (w : Word) (h : d.IsInput c) : (d.writeWord o w).1.peekWord c = d.peekWord c := by
  cases d with
  | memory m => cases h
  | uart u =>
    obtain rfl : c = 4 := h
    show (u.writeWord o w).1.status = u.status
    unfold Uart.status
    rw [u.received_writeWord]
  | gpio g =>
    obtain rfl : c = 4 := h
    exact g.inputs_writeWord o w

theorem peekWord_loadWord_input (w : Word) (h : d.IsInput c) : (d.loadWord o w).1.peekWord c = d.peekWord c := by
  cases d with
  | memory m => cases h
  | uart u => exact peekWord_writeWord_input (uart u) w h
  | gpio g => exact peekWord_writeWord_input (gpio g) w h

theorem peekWord_writeByte_input (b : Byte) (h : d.IsInput c) : (d.writeByte o b).1.peekWord c = d.peekWord c := by
  cases d with
  | memory m => cases h
  | uart u =>
    obtain rfl : c = 4 := h
    show (u.writeByte o b).1.status = u.status
    unfold Uart.status
    rw [u.received_writeByte]
  | gpio g =>
    obtain rfl : c = 4 := h
    exact g.inputs_writeWord _ _

theorem peekWord_loadByte_input (b : Byte) (h : d.IsInput c) : (d.loadByte o b).1.peekWord c = d.peekWord c := by
  cases d with
  | memory m => cases h
  | uart u => exact peekWord_writeByte_input (uart u) b h
  | gpio g => exact peekWord_writeByte_input (gpio g) b h

end Device

end FiveStageArm
