/-
  FiveStageArm.Proofs.Bus.Loaders — the two ways to load an image, word by word and byte by
  byte. A memory takes a word as its four bytes; a word register takes a byte by replacing
  a lane of what it shows, so the four lanes in turn leave the whole word; DATA transmits
  its lowest lane and drops the others; and what ignores a word ignores its bytes
  (`Device.loadBytes_wordBytes`). A region holds whole words, so all four bytes of a word go
  to one device.

  Proved: on a board, words loaded from an aligned address up and their bytes loaded one by
  one, lowest first, leave the very same board, console and counters included
  (`loadWords_eq_loadBytes`).
-/

import FiveStageArm.Proofs.Bus.Placement

namespace FiveStageArm

/-! ## A word lane by lane -/

/-- Replacing the lanes of a word in turn leaves nothing of it. -/
theorem setLane_lanes {o : Address} (ho : align o = o) (v w : Word) :
    setLane (setLane (setLane (setLane v o (lane w 0)) (o + 1) (lane w 1)) (o + 2) (lane w 2)) (o + 3) (lane w 3) =
      w := by
  rw [align_eq_self] at ho
  have place (k : Address) (hk : k.toNat < 4) : (o + k).toNat % 4 = k.toNat := by
    rw [UInt32.toNat_add]
    omega
  refine eq_of_lane fun k hk => ?_
  simp only [lane_setLane, ho, place 1 (by decide), place 2 (by decide), place 3 (by decide)]
  rcases eq_of_lt_four hk with rfl | rfl | rfl | rfl <;> rfl

/-! ## Devices -/

namespace Device

/-- The loader's stores of bytes from `o` up, each on the device that the one before left,
    and what they put on the console, oldest first. -/
def loadBytes (d : Device) (o : Address) : List Byte → Device × List Byte
  | [] => (d, [])
  | v :: vs =>
    let first := d.loadByte o v
    let rest := first.1.loadBytes (o + 1) vs
    (rest.1, first.2.toList ++ rest.2)

theorem loadBytes_memory (m : Memory) (o : Address) (vs : List Byte) :
    (memory m).loadBytes o vs = (memory (m.loadBytes o vs), []) := by
  induction vs generalizing m o with
  | nil => rfl
  | cons v vs ih =>
    show (((memory (m.loadByte o v)).loadBytes (o + 1) vs).1,
      [] ++ ((memory (m.loadByte o v)).loadBytes (o + 1) vs).2) = _
    rw [ih]
    rfl

/-- Where a byte replaces a lane of the word that is there, four bytes leave the word. -/
theorem loadBytes_register (hold : Word → Device) {o : Address} (ho : align o = o)
    (stores : ∀ v k b, align k = o → (hold v).loadByte k b = (hold (setLane v k b), none)) (v w : Word) :
    (hold v).loadBytes o (wordBytes w) = (hold w, []) := by
  have two : o + 1 + 1 = o + 2 := UInt32.add_assoc o 1 1
  have three : o + 2 + 1 = o + 3 := UInt32.add_assoc o 2 1
  have inWord (k : Address) (hk : k.toNat < 4) : align (o + k) = o := align_add ho hk
  simp only [wordBytes_eq, loadBytes, two, three, stores _ _ _ ho, stores _ _ _ (inWord 1 (by decide)),
    stores _ _ _ (inWord 2 (by decide)), stores _ _ _ (inWord 3 (by decide)), setLane_lanes ho]
  rfl

/-- Of the bytes of DATA the lowest is transmitted and the others dropped. -/
theorem loadBytes_data (u : Uart) (w : Word) :
    (uart u).loadBytes 0 (wordBytes w) = (uart (u.transmit w.toUInt8).1, (u.transmit w.toUInt8).2.toList) := by
  have dropped (u : Uart) (k : Address) (v : Byte) (word : align k = 0) (upper : k ≠ 0) :
      (uart u).loadByte k v = (uart u, none) := by
    show ofUart (u.writeByte k v) = _
    rw [Uart.writeByte, if_pos word, if_neg upper]
    rfl
  have lowest : (uart u).loadByte 0 w.toUInt8 = (uart (u.transmit w.toUInt8).1, (u.transmit w.toUInt8).2) := rfl
  have one : (0 : Address) + 1 = 1 := rfl
  have two : (1 : Address) + 1 = 2 := rfl
  have three : (2 : Address) + 1 = 3 := rfl
  simp only [wordBytes, loadBytes, lowest, one, two, three, dropped _ 1 _ (by decide) (by decide),
    dropped _ 2 _ (by decide) (by decide), dropped _ 3 _ (by decide) (by decide)]
  simp

theorem loadBytes_uart (u : Uart) {o : Address} (ho : align o = o) (w : Word) :
    (uart u).loadBytes o (wordBytes w) = (uart (u.writeWord o w).1, (u.writeWord o w).2.toList) := by
  by_cases data : o = 0
  · subst data
    exact loadBytes_data u w
  have lane (u : Uart) (k : Address) (b : Byte) (word : align k = o) :
      (uart u).loadByte k b = ofUart (u.writeWord o (setLane (u.peekWord o) k b)) := by
    show ofUart (u.writeByte k b) = _
    rw [Uart.writeByte, word, if_neg data]
  by_cases control : o = 8
  · subst control
    exact loadBytes_register (fun v => uart { u with control := v }) ho (fun v k b word => lane _ k b word) _ w
  by_cases baud : o = 12
  · subst baud
    exact loadBytes_register (fun v => uart { u with baud := v }) ho (fun v k b word => lane _ k b word) _ w
  have ignored (v : Word) : u.writeWord o v = (u, none) := by
    rw [Uart.writeWord, if_neg data, if_neg control, if_neg baud]
  rw [ignored]
  refine loadBytes_register (fun _ => uart u) ho (fun v k b word => ?_) 0 w
  rw [lane _ k b word, ignored]
  rfl

theorem loadBytes_gpio (g : Gpio) {o : Address} (ho : align o = o) (w : Word) :
    (gpio g).loadBytes o (wordBytes w) = (gpio (g.writeWord o w), []) := by
  have lane (g : Gpio) (k : Address) (b : Byte) (word : align k = o) :
      (gpio g).loadByte k b = (gpio (g.writeWord o (setLane (g.readWord o) k b)), none) := by
    rw [← word]
    rfl
  by_cases out : o = 0
  · subst out
    exact loadBytes_register (fun v => gpio { g with out := v }) ho (fun v k b word => lane _ k b word) _ w
  by_cases dir : o = 8
  · subst dir
    exact loadBytes_register (fun v => gpio { g with dir := v }) ho (fun v k b word => lane _ k b word) _ w
  have ignored (v : Word) : g.writeWord o v = g := by
    rw [Gpio.writeWord, if_neg out, if_neg dir]
  rw [ignored]
  refine loadBytes_register (fun _ => gpio g) ho (fun v k b word => ?_) 0 w
  rw [lane _ k b word, ignored]

/-- An aligned word and its four bytes, lowest first, do the same to a device. -/
theorem loadBytes_wordBytes (d : Device) {o : Address} (ho : align o = o) (w : Word) :
    d.loadBytes o (wordBytes w) = ((d.loadWord o w).1, (d.loadWord o w).2.toList) := by
  cases d with
  | memory m => exact loadBytes_memory m o (wordBytes w)
  | uart u => exact loadBytes_uart u ho w
  | gpio g => exact loadBytes_gpio g ho w

end Device

/-! ## Buses -/

namespace Bus

variable {n : Nat}

/-- A device after several stores, and what they put on the console, oldest first. -/
def deliver (b : Bus n) (i : Fin n) (x : Device × List Byte) : Bus n :=
  { b.setDevice i x.1 with console := x.2.reverse ++ b.console }

theorem settle_eq_deliver (b : Bus n) (i : Fin n) (x : Device × Option Byte) :
    b.settle i x = b.deliver i (x.1, x.2.toList) := by
  obtain ⟨d, _ | v⟩ := x <;> rfl

theorem get_deliver (b : Bus n) (i : Fin n) (x : Device × List Byte) : (b.deliver i x).devices.get i = x.1 := by
  show (b.setDevice i x.1).devices.get i = x.1
  rw [get_setDevice, if_pos rfl]

theorem deliver_deliver (b : Bus n) (i : Fin n) (x y : Device × List Byte) :
    (b.deliver i x).deliver i y = b.deliver i (y.1, x.2 ++ y.2) := by
  simp [deliver, setDevice]

theorem deliver_self (b : Bus n) (i : Fin n) : b.deliver i (b.devices.get i, []) = b := by
  have same : b.devices.set i b.devices[i] = b.devices := Vector.set_getElem_self ..
  show { b with devices := b.devices.set i b.devices[i] } = b
  rw [same]

/-- Places counted from the second byte are places counted from the first. -/
theorem add_one_ofNat (a : Address) (k : Nat) : a + 1 + UInt32.ofNat k = a + UInt32.ofNat (k + 1) := by
  rw [UInt32.ofNat_add, UInt32.add_assoc, UInt32.add_comm (UInt32.ofNat k)]
  rfl

/-- Bytes that all fall in one region go to its device. -/
theorem loadBytes_of_find? {b : Bus n} {r : Region n} {a : Address} {vs : List Byte}
    (within : ∀ k < vs.length, b.find? (a + UInt32.ofNat k) = some r) :
    b.loadBytes a vs = b.deliver r.device ((b.devices.get r.device).loadBytes (a - r.base) vs) := by
  induction vs generalizing b a with
  | nil => exact (b.deliver_self r.device).symm
  | cons v vs ih =>
    have here : b.find? a = some r := by simpa using within 0 (Nat.zero_lt_succ _)
    have stored : b.loadByte a v = b.deliver r.device
        (((b.devices.get r.device).loadByte (a - r.base) v).1,
          ((b.devices.get r.device).loadByte (a - r.base) v).2.toList) := by
      unfold loadByte
      rw [here]
      exact b.settle_eq_deliver _ _
    have next : a + 1 - r.base = a - r.base + 1 := by
      rw [UInt32.sub_eq_add_neg, UInt32.sub_eq_add_neg, UInt32.add_assoc, UInt32.add_comm 1, UInt32.add_assoc]
    rw [loadBytes, stored, ih, deliver_deliver, get_deliver, next]
    · rfl
    · intro k hk
      rw [add_one_ofNat]
      exact within (k + 1) (Nat.succ_lt_succ hk)

/-- Bytes outside every region are dropped. -/
theorem loadBytes_of_unmapped {b : Bus n} {a : Address} {vs : List Byte}
    (outside : ∀ k < vs.length, b.find? (a + UInt32.ofNat k) = none) : b.loadBytes a vs = b := by
  induction vs generalizing a with
  | nil => rfl
  | cons v vs ih =>
    have here : b.find? a = none := by simpa using outside 0 (Nat.zero_lt_succ _)
    have dropped : b.loadByte a v = b := by
      unfold loadByte
      rw [here]
    rw [loadBytes, dropped]
    refine ih fun k hk => ?_
    rw [add_one_ofNat]
    exact outside (k + 1) (Nat.succ_lt_succ hk)

theorem loadBytes_append (b : Bus n) (a : Address) (vs vs' : List Byte) :
    b.loadBytes a (vs ++ vs') = (b.loadBytes a vs).loadBytes (a + UInt32.ofNat vs.length) vs' := by
  induction vs generalizing b a with
  | nil => simp [loadBytes]
  | cons v vs ih =>
    rw [List.cons_append, loadBytes, loadBytes, ih, List.length_cons, add_one_ofNat]

namespace Wired

variable {b : Board} (h : b.Wired)

include h

/-- One word and its bytes. A region holds whole words, so the four go where the first goes. -/
theorem loadWord_eq_loadBytes {a : Address} (ha : align a = a) (w : Word) :
    b.loadWord a w = b.loadBytes a (wordBytes w) := by
  have together (k : Nat) (hk : k < (wordBytes w).length) : b.find? (a + UInt32.ofNat k) = b.find? a := by
    have small : (UInt32.ofNat k).toNat < 4 := by
      rw [UInt32.toNat_ofNat']
      exact Nat.lt_of_le_of_lt (Nat.mod_le _ _) hk
    rw [← h.find?_align, align_add ha small]
  unfold loadWord
  cases found : b.find? a with
  | none => exact (loadBytes_of_unmapped fun k hk => (together k hk).trans found).symm
  | some r =>
    have aligned : align (a - r.base) = a - r.base := by rw [align_sub (base_aligned r (h.mem_of_find? found)), ha]
    have bytes := loadBytes_of_find? fun k hk => (together k hk).trans found
    rw [bytes, Device.loadBytes_wordBytes _ aligned]
    exact b.settle_eq_deliver _ _

end Wired

/-- Loading words from an aligned address up and loading their bytes one by one, lowest first,
    leave the same board, whatever lies there and wherever the words run to. -/
theorem loadWords_eq_loadBytes {b : Board} (wired : b.Wired) {a : Address} (ha : align a = a) (ws : List Word) :
    b.loadWords a ws = b.loadBytes a (ws.flatMap wordBytes) := by
  induction ws generalizing b a with
  | nil => rfl
  | cons w ws ih =>
    have next : a + UInt32.ofNat (wordBytes w).length = a + 4 := rfl
    have aligned : align (a + 4) = a + 4 := by rw [align_add_four, ha]
    rw [List.flatMap_cons, loadBytes_append, ← wired.loadWord_eq_loadBytes ha, next]
    exact ih (wired.loadWords a [w]) aligned

/-- Words from just below the UART up through DATA, STATUS and CTRL, with the echo on. -/
theorem loadWords_eq_loadBytes_acrossUart :
    let b := Board.empty.setUart { Uart.idle with received := [7], echo := true }
    let ws := [0x11, 0x22446688, 5, 0xA1B2C3D4]
    b.Wired ∧ align 0xFFFEFFFC = 0xFFFEFFFC ∧
      b.loadWords 0xFFFEFFFC ws = b.loadBytes 0xFFFEFFFC (ws.flatMap wordBytes) ∧
      Board.uart (b.loadWords 0xFFFEFFFC ws) = ⟨[7], [0x88], 0xA1B2C3D4, 0, true⟩ ∧
      (b.loadWords 0xFFFEFFFC ws).console = [0x88] := by
  intro b ws
  have wired : b.Wired := wired_empty.setDevice rfl
  have aligned : align 0xFFFEFFFC = 0xFFFEFFFC := by decide
  exact ⟨wired, aligned, loadWords_eq_loadBytes wired aligned ws, by decide +kernel, by decide +kernel⟩

end Bus

end FiveStageArm
