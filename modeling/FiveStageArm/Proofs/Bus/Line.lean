/-
  FiveStageArm.Proofs.Bus.Line — the bytes on the serial line, both ways. The other side puts
  bytes on the receive queue, and only a read of DATA takes one off: of the word, fetches
  included, or of its lowest lane. Only a write of DATA, of the word or of its lowest lane
  and a loader's included, sends one.

  Events come in any order: anything on the bus, accesses to the UART by its own offsets,
  whatever the lane, and moves of the other side. A record is kept beside the board of what
  the events alone say should have passed, from the last reset on.

  Proved:
  - `moved_of_access`: one access takes at most one byte off the queue and sends what it
    should, to the console too while the echo is on.
  - `line_faithful`: so after any events what was read, followed by what is still queued, is
    what was received, and the transcript and the console are what was sent; STATUS tells
    whether a byte is waiting.
-/

import FiveStageArm.Proofs.Bus.Store

namespace FiveStageArm

/-! ## The UART -/

namespace Uart

/-- What an access does: it takes the oldest byte off the queue or leaves it, and sends these
    bytes, to the console too while the echo is on. -/
structure Moved (u : Uart) (x : Uart × Option Byte) (takes : Bool) (sends : List Byte) : Prop where
  received : x.1.received = if takes then u.received.tail else u.received
  sent : x.1.sent = sends.reverse ++ u.sent
  echo : x.1.echo = u.echo
  console : x.2.toList = if u.echo then sends.reverse else []

variable (u : Uart) (o : Address)

theorem moved_self : u.Moved (u, none) false [] := ⟨rfl, rfl, rfl, by simp⟩

theorem moved_readWord : u.Moved ((u.readWord o).2, none) (o == 0) [] := by
  unfold readWord
  by_cases data : o = 0
  · simp only [data, if_true]
    exact ⟨rfl, rfl, rfl, by simp⟩
  · have other : (o == 0) = false := by simp [data]
    rw [if_neg data, other]
    exact u.moved_self

theorem moved_transmit (b : Byte) : u.Moved (u.transmit b) false [b] := by
  refine ⟨rfl, rfl, rfl, ?_⟩
  show (if u.echo then some b else none).toList = _
  split <;> rfl

theorem moved_writeWord (w : Word) : u.Moved (u.writeWord o w) false (if o = 0 then [w.toUInt8] else []) := by
  unfold writeWord
  by_cases data : o = 0
  · rw [if_pos data, if_pos data]
    exact u.moved_transmit w.toUInt8
  rw [if_neg data, if_neg data]
  repeat' split
  all_goals exact ⟨rfl, rfl, rfl, by simp⟩

/-- The lowest lane of DATA is its first byte. -/
theorem align_eq_zero_of_eq {o : Address} (h : o = 0) : align o = 0 := by
  rw [h]
  rfl

theorem moved_readByte : u.Moved ((u.readByte o).2, none) (o == 0) [] := by
  unfold readByte
  by_cases upper : align o = 0 ∧ o ≠ 0
  · have other : (o == 0) = false := by simp [upper.2]
    rw [if_pos upper, other]
    exact u.moved_self
  · have same : (o == 0) = (align o == 0) := by
      by_cases data : o = 0
      · simp [data, align_eq_zero_of_eq]
      · have word : align o ≠ 0 := fun e => upper ⟨e, data⟩
        simp [data, word]
    rw [if_neg upper, same]
    exact u.moved_readWord (align o)

theorem moved_writeByte (v : Byte) : u.Moved (u.writeByte o v) false (if o = 0 then [v] else []) := by
  unfold writeByte
  by_cases word : align o = 0
  · rw [if_pos word]
    split
    · exact u.moved_transmit v
    · exact u.moved_self
  · have other : o ≠ 0 := fun e => word (align_eq_zero_of_eq e)
    have moved := u.moved_writeWord (align o) (setLane (u.peekWord (align o)) o v)
    rw [if_neg word] at moved
    rw [if_neg word, if_neg other]
    exact moved

end Uart

namespace Bus

open Board

/-! ## Accesses through the bus -/

/-- What an access does to the line of a board. The console has its newest byte first. -/
structure Moved (b b' : Board) (takes : Bool) (sends : List Byte) : Prop where
  received : b'.uart.received = if takes then b.uart.received.tail else b.uart.received
  sent : b'.uart.sent = sends.reverse ++ b.uart.sent
  echo : b'.uart.echo = b.uart.echo
  console : b'.console = (if b.uart.echo then sends.reverse else []) ++ b.console

namespace Moved

theorem refl (b : Board) : Moved b b false [] := ⟨rfl, rfl, rfl, by simp⟩

/-- Counters are not looked at. -/
theorem of_uncounted {b b' c : Board} {takes : Bool} {sends : List Byte} (h : Moved b c takes sends)
    (e : b'.uncounted = c.uncounted) : Moved b b' takes sends := by
  have uart : Board.uart b'.uncounted = Board.uart c.uncounted := congrArg Board.uart e
  have console : b'.uncounted.console = c.uncounted.console := congrArg Bus.console e
  have uart : b'.uart = c.uart := uart
  have console : b'.console = c.console := console
  exact ⟨by rw [uart, h.received], by rw [uart, h.sent], by rw [uart, h.echo], by rw [console, h.console]⟩

/-- Accesses that take nothing, one after the other. -/
theorem append {b c d : Board} {sends sends' : List Byte} (h : Moved b c false sends) (h' : Moved c d false sends') :
    Moved b d false (sends ++ sends') where
  received := h'.received.trans h.received
  sent := by rw [h'.sent, h.sent, List.reverse_append, List.append_assoc]
  echo := h'.echo.trans h.echo
  console := by
    rw [h'.console, h.console, h.echo]
    split
    · rw [List.reverse_append, List.append_assoc]
    · rfl

end Moved

theorem uart_of_device {b : Board} {u : Uart} (h : b.devices.get uartSlot = .uart u) : b.uart = u := by
  unfold Board.uart
  rw [show b.devices[uartSlot] = _ from h]

theorem uart_settle (b : Board) (x : Uart × Option Byte) : Board.uart (b.settle uartSlot (Device.ofUart x)) = x.1 :=
  uart_of_device (by rw [get_settle, if_pos rfl]; rfl)

theorem console_settle (b : Board) (i : Fin 5) (x : Device × Option Byte) :
    (b.settle i x).console = x.2.toList ++ b.console := by
  obtain ⟨d, _ | v⟩ := x <;> rfl

/-- An access to the UART itself. -/
theorem moved_settle {b : Board} {x : Uart × Option Byte} {takes : Bool} {sends : List Byte}
    (moved : b.uart.Moved x takes sends) : Moved b (b.settle uartSlot (Device.ofUart x)) takes sends := by
  have uart := b.uart_settle x
  refine ⟨?_, ?_, ?_, ?_⟩
  · rw [uart, moved.received]
  · rw [uart, moved.sent]
  · rw [uart, moved.echo]
  · rw [console_settle, ← moved.console]
    rfl

/-- An access to another device. -/
theorem moved_settle_of_ne {b : Board} {i : Fin 5} (other : i ≠ uartSlot) {x : Device × Option Byte}
    (silent : x.2 = none) : Moved b (b.settle i x) false [] := by
  obtain ⟨d, e⟩ := x
  cases silent
  have uart : Board.uart (b.setDevice i d) = b.uart := by
    have same := b.get_setDevice i uartSlot d
    rw [if_neg other] at same
    unfold Board.uart
    rw [show (b.setDevice i d).devices[uartSlot] = b.devices[uartSlot] from same]
  have moved : Moved b (b.setDevice i d) false [] :=
    ⟨by rw [uart]; rfl, by rw [uart]; rfl, by rw [uart], by simp [setDevice]⟩
  exact moved

namespace Wired

variable {b : Board} (h : b.Wired)

include h

theorem isUart_of_ne {i : Fin 5} (other : i ≠ uartSlot) : (b.devices.get i).isUart = false := by
  have fresh : ∀ i : Fin 5, i ≠ uartSlot → freshDevices[i].isUart = false := by decide
  have blank : (b.devices.get i).blank = freshDevices[i].blank := h.devices i
  rw [← Device.isUart_blank, blank, Device.isUart_blank]
  exact fresh i other

theorem find?_uart {k : Address} (word : k = 0 ∨ k = 4) :
    b.find? (uartBase + k) = some ⟨uartBase, 0x100, uartSlot⟩ := by
  rcases word with rfl | rfl
  all_goals exact h.find?_eq_some_iff.mpr ⟨by decide, by decide, by decide⟩

theorem find?_uartBase : b.find? uartBase = some ⟨uartBase, 0x100, uartSlot⟩ := h.find?_uart (.inl rfl)

/-- Whatever is done at an address: to the UART it is `takes` and `sends` at DATA and nothing
    elsewhere, and no other device is on the line. -/
theorem moved_storeAt (f : Device → Address → Device × Option Byte) (takes : Bool) (sends : List Byte)
    (onUart : ∀ (u : Uart) (o : Address), ∃ x, f (.uart u) o = Device.ofUart x ∧
      u.Moved x (takes && o == 0) (if o = 0 then sends else []))
    (onMemory : ∀ (m : Memory) (o : Address), (f (.memory m) o).2 = none)
    (onPins : ∀ (g : Gpio) (o : Address), (f (.gpio g) o).2 = none) (a : Address) :
    Moved b (b.storeAt a f) (takes && a == uartBase) (if a = uartBase then sends else []) := by
  have away (other : a ≠ uartBase) :
      (takes && a == uartBase) = false ∧ (if a = uartBase then sends else []) = [] := by
    simp [other]
  unfold storeAt
  cases found : b.find? a with
  | none =>
    obtain ⟨stays, silent⟩ := away fun e => by simp [e, h.find?_uartBase] at found
    rw [stays, silent]
    exact .refl b
  | some r =>
    have mem := h.mem_of_find? found
    by_cases slot : r.device = uartSlot
    · obtain rfl := region_of_device ⟨uartBase, 0x100, uartSlot⟩ (by decide) r mem slot
      have data : a - uartBase = 0 ↔ a = uartBase :=
        ⟨fun e => by simpa using congrArg (· + uartBase) e, fun e => by rw [e, UInt32.sub_self]⟩
      obtain ⟨x, does, moved⟩ := onUart b.uart (a - uartBase)
      have same : (a - uartBase == 0) = (a == uartBase) := by
        rw [Bool.eq_iff_iff, beq_iff_eq, beq_iff_eq, data]
      simp only [data, same] at moved
      show Moved b (b.settle uartSlot (f (b.devices.get uartSlot) (a - uartBase))) _ _
      rw [h.device_uart, does]
      exact moved_settle moved
    · obtain ⟨stays, silent⟩ := away fun e => by
        rw [e, h.find?_uartBase, Option.some.injEq] at found
        exact slot (by rw [← found])
      rw [stays, silent]
      refine moved_settle_of_ne slot ?_
      have kind := h.isUart_of_ne slot
      cases hd : b.devices.get r.device with
      | memory m => exact onMemory m _
      | gpio g => exact onPins g _
      | uart u => simp [hd, Device.isUart] at kind

end Wired

/-! ### Each access is some store at an address, its counts apart -/

theorem uncounted_fetch (b : Board) (a : Address) :
    (b.fetch a).2.uncounted = (b.storeAt (align a) fun d o => ((d.readWord o).2, none)).uncounted := by
  have counted : ({ b with fetches := b.fetches + 1 } : Board).find? (align a) = b.find? (align a) := rfl
  unfold fetch readWordAt storeAt
  rw [counted]
  cases b.find? (align a) <;> rfl

theorem uncounted_read (b : Board) (a : Address) :
    (b.read a).2.uncounted = (b.storeAt (align a) fun d o => ((d.readWord o).2, none)).uncounted := by
  have counted : ({ b with reads := b.reads + 1 } : Board).find? (align a) = b.find? (align a) := rfl
  unfold read readWordAt storeAt
  rw [counted]
  cases b.find? (align a) <;> rfl

theorem uncounted_readByte (b : Board) (a : Address) :
    (b.readByte a).2.uncounted = (b.storeAt a fun d o => ((d.readByte o).2, none)).uncounted := by
  have counted : ({ b with reads := b.reads + 1 } : Board).find? a = b.find? a := rfl
  unfold readByte storeAt
  simp only [counted]
  cases b.find? a <;> rfl

theorem uncounted_write (b : Board) (a : Address) (w : Word) :
    (b.write a w).uncounted = (b.storeAt (align a) (·.writeWord · w)).uncounted := by
  have counted : ({ b with writes := b.writes + 1 } : Board).find? (align a) = b.find? (align a) := rfl
  unfold write storeAt
  simp only [counted]
  cases b.find? (align a) with
  | none => rfl
  | some r =>
    show (settle _ _ (Device.writeWord (b.devices.get r.device) _ w)).uncounted = (settle _ _ _).uncounted
    rcases (b.devices.get r.device).writeWord (align a - r.base) w with ⟨d, _ | v⟩ <;> rfl

theorem uncounted_writeByte (b : Board) (a : Address) (v : Byte) :
    (b.writeByte a v).uncounted = (b.storeAt a (·.writeByte · v)).uncounted := by
  have counted : ({ b with writes := b.writes + 1 } : Board).find? a = b.find? a := rfl
  unfold writeByte storeAt
  simp only [counted]
  cases b.find? a with
  | none => rfl
  | some r =>
    show (settle _ _ (Device.writeByte (b.devices.get r.device) _ v)).uncounted = (settle _ _ _).uncounted
    rcases (b.devices.get r.device).writeByte (a - r.base) v with ⟨d, _ | e⟩ <;> rfl

namespace Wired

variable {b : Board} (h : b.Wired)

include h

/-! ### What each puts on the line -/

theorem moved_readWord (a : Address) :
    Moved b (b.storeAt a fun d o => ((d.readWord o).2, none)) (a == uartBase) [] := by
  have moved := h.moved_storeAt (fun d o => ((d.readWord o).2, none)) true []
    (fun u o => ⟨((u.readWord o).2, none), rfl, by simpa using u.moved_readWord o⟩) (fun _ _ => rfl) (fun _ _ => rfl) a
  simpa using moved

theorem moved_fetch (a : Address) : Moved b (b.fetch a).2 (align a == uartBase) [] :=
  (h.moved_readWord (align a)).of_uncounted (b.uncounted_fetch a)

theorem moved_read (a : Address) : Moved b (b.read a).2 (align a == uartBase) [] :=
  (h.moved_readWord (align a)).of_uncounted (b.uncounted_read a)

theorem moved_readByte (a : Address) : Moved b (b.readByte a).2 (a == uartBase) [] := by
  have moved := h.moved_storeAt (fun d o => ((d.readByte o).2, none)) true []
    (fun u o => ⟨((u.readByte o).2, none), rfl, by simpa using u.moved_readByte o⟩) (fun _ _ => rfl) (fun _ _ => rfl) a
  have moved : Moved b (b.storeAt a fun d o => ((d.readByte o).2, none)) (a == uartBase) [] := by simpa using moved
  exact moved.of_uncounted (b.uncounted_readByte a)

theorem moved_write (a : Address) (w : Word) :
    Moved b (b.write a w) false (if align a = uartBase then [w.toUInt8] else []) := by
  have moved := h.moved_storeAt (·.writeWord · w) false [w.toUInt8]
    (fun u o => ⟨u.writeWord o w, rfl, u.moved_writeWord o w⟩)
    (fun _ _ => rfl) (fun _ _ => rfl) (align a)
  exact moved.of_uncounted (b.uncounted_write a w)

theorem moved_writeByte (a : Address) (v : Byte) :
    Moved b (b.writeByte a v) false (if a = uartBase then [v] else []) := by
  have moved := h.moved_storeAt (·.writeByte · v) false [v]
    (fun u o => ⟨u.writeByte o v, rfl, u.moved_writeByte o v⟩)
    (fun _ _ => rfl) (fun _ _ => rfl) a
  exact moved.of_uncounted (b.uncounted_writeByte a v)

theorem moved_loadWord (a : Address) (w : Word) :
    Moved b (b.loadWord a w) false (if a = uartBase then [w.toUInt8] else []) :=
  h.moved_storeAt (·.loadWord · w) false [w.toUInt8]
    (fun u o => ⟨u.writeWord o w, rfl, u.moved_writeWord o w⟩)
    (fun _ _ => rfl) (fun _ _ => rfl) a

theorem moved_loadByte (a : Address) (v : Byte) :
    Moved b (b.loadByte a v) false (if a = uartBase then [v] else []) :=
  h.moved_storeAt (·.loadByte · v) false [v]
    (fun u o => ⟨u.writeByte o v, rfl, u.moved_writeByte o v⟩)
    (fun _ _ => rfl) (fun _ _ => rfl) a

end Wired

end Bus

/-! ## Events -/

namespace Line

open Bus Board

/-- A transaction on the bus, an access to the UART by its own offsets or its reset alone, or a
    move of the other side. -/
inductive Event where
  | bus (t : Transaction)
  | readWord (o : Address)
  | readByte (o : Address)
  | peekWord (o : Address)
  | writeWord (o : Address) (w : Word)
  | writeByte (o : Address) (v : Byte)
  | loadWord (o : Address) (w : Word)
  | loadByte (o : Address) (v : Byte)
  | reset
  | clearTranscript
  | setEcho (on : Bool)

/-- The bytes of those that go to DATA, when they are stored from `a` up. -/
def atData (step a : Address) : List Byte → List Byte
  | [] => []
  | v :: vs => (if a = uartBase then [v] else []) ++ atData step (a + step) vs

namespace Event

def perform (b : Board) : Event → Board
  | bus t => t.perform b
  | readWord o => b.settle uartSlot (Device.ofUart ((b.uart.readWord o).2, none))
  | readByte o => b.settle uartSlot (Device.ofUart ((b.uart.readByte o).2, none))
  | peekWord _ => b
  | writeWord o w => b.settle uartSlot ((Device.uart b.uart).writeWord o w)
  | writeByte o v => b.settle uartSlot ((Device.uart b.uart).writeByte o v)
  | loadWord o w => b.settle uartSlot ((Device.uart b.uart).loadWord o w)
  | loadByte o v => b.settle uartSlot ((Device.uart b.uart).loadByte o v)
  | reset => b.setUart b.uart.reset
  | clearTranscript => b.setUart b.uart.clearTranscript
  | setEcho on => b.setUart { b.uart with echo := on }

/-- What the event hands back, if it reads. -/
def answer (b : Board) : Event → Option Word
  | bus t => t.answer b
  | readWord o => some (b.uart.readWord o).1
  | readByte o => some (b.uart.readByte o).1.toUInt32
  | peekWord o => some (b.uart.peekWord o)
  | _ => none

/-! ### What an event is, by its addresses alone -/

/-- A read of the DATA word, a fetch included, or of its lowest lane; not a peek. -/
def readsData : Event → Bool
  | bus (.request (.fetch a)) | bus (.request (.read a)) => align a == uartBase
  | bus (.request (.readByte a)) => a == uartBase
  | readWord o | readByte o => o == 0
  | _ => false

/-- A read or a peek of the STATUS word, or of its lowest lane. -/
def showsStatus : Event → Bool
  | bus (.request (.fetch a)) | bus (.request (.read a)) | bus (.peek a) => align a == uartBase + 4
  | bus (.request (.readByte a)) => a == uartBase + 4
  | readWord o | readByte o | peekWord o => o == 4
  | _ => false

/-- The low bytes of what is written to the DATA word, and the bytes to its lowest lane. -/
def sends : Event → List Byte
  | bus (.request (.write a w)) => if align a = uartBase then [w.toUInt8] else []
  | bus (.request (.writeByte a v)) => if a = uartBase then [v] else []
  | bus (.request (.loadWords a ws)) => atData 4 a (ws.map (·.toUInt8))
  | bus (.request (.loadBytes a vs)) => atData 1 a vs
  | writeWord o w | loadWord o w => if o = 0 then [w.toUInt8] else []
  | writeByte o v | loadByte o v => if o = 0 then [v] else []
  | _ => []

/-- The bytes put on the queue. -/
def injects : Event → List Byte
  | bus (.inject bytes) => bytes
  | _ => []

def isReset : Event → Bool
  | bus (.request .reset) | reset => true
  | _ => false

/-- Neither a reset nor a move of the other side of the line. -/
def isAccess : Event → Bool
  | bus (.request .reset) | bus (.inject _) | reset | clearTranscript | setEcho _ => false
  | _ => true

end Event

/-! ### What an event does -/

theorem moved_setInputs (b : Board) (w : Word) : Moved b (b.setInputs w) false [] :=
  moved_settle_of_ne (x := (.gpio (b.gpio.setInputs w), none)) (by decide) rfl

section

variable {b : Board} (h : b.Wired)

include h

theorem uart_reset : Board.uart b.reset = b.uart.reset :=
  uart_of_device (by rw [get_devices_reset, if_pos (h.mapped uartSlot), h.device_uart]; rfl)

theorem moved_loadWords (a : Address) (ws : List Word) :
    Moved b (b.loadWords a ws) false (atData 4 a (ws.map (·.toUInt8))) := by
  induction ws generalizing b a with
  | nil => exact .refl b
  | cons w ws ih => exact (h.moved_loadWord a w).append (ih (h.loadWords a [w]) (a + 4))

theorem moved_loadBytes (a : Address) (vs : List Byte) : Moved b (b.loadBytes a vs) false (atData 1 a vs) := by
  induction vs generalizing b a with
  | nil => exact .refl b
  | cons v vs ih => exact (h.moved_loadByte a v).append (ih (h.of_build (b.build_loadBytes a [v])) (a + 1))

/-- One access. -/
theorem moved_of_access {e : Event} (access : e.isAccess) : Moved b (e.perform b) e.readsData e.sends := by
  cases e with
  | bus t =>
    cases t with
    | peek a => exact .refl b
    | setInputs w => exact moved_setInputs b w
    | inject bytes => cases access
    | request r =>
      cases r with
      | fetch a => exact h.moved_fetch a
      | read a => exact h.moved_read a
      | readByte a => exact h.moved_readByte a
      | write a w => exact h.moved_write a w
      | writeByte a v => exact h.moved_writeByte a v
      | loadWords a ws => exact moved_loadWords h a ws
      | loadBytes a vs => exact moved_loadBytes h a vs
      | reset => cases access
  | readWord o => exact moved_settle (b.uart.moved_readWord o)
  | readByte o => exact moved_settle (b.uart.moved_readByte o)
  | peekWord o => exact .refl b
  | writeWord o w | loadWord o w => exact moved_settle (b.uart.moved_writeWord o w)
  | writeByte o v | loadByte o v => exact moved_settle (b.uart.moved_writeByte o v)
  | reset | clearTranscript | setEcho on => cases access

theorem wired_settle (x : Uart × Option Byte) : Wired (b.settle uartSlot (Device.ofUart x)) := by
  obtain ⟨u, _ | v⟩ := x
  · exact h.setDevice rfl
  · have wired : (b.setDevice uartSlot (.uart u)).Wired := h.setDevice rfl
    exact ⟨wired.regions, wired.devices⟩

theorem wired_perform (e : Event) : (e.perform b).Wired := by
  cases e with
  | bus t => exact h.transaction t
  | peekWord o => exact h
  | reset | clearTranscript | setEcho on => exact h.setDevice rfl
  | readWord o => exact wired_settle h ((b.uart.readWord o).2, none)
  | readByte o => exact wired_settle h ((b.uart.readByte o).2, none)
  | writeWord o w | loadWord o w => exact wired_settle h (b.uart.writeWord o w)
  | writeByte o v | loadByte o v => exact wired_settle h (b.uart.writeByte o v)

end

/-! ### What an event hands back -/

theorem toUInt32_lane_zero {w : Word} (h : w.toNat < 256) : (lane w 0).toUInt32 = w := by
  rw [← UInt32.toNat_inj, UInt8.toNat_toUInt32, toNat_lane]
  show w.toNat >>> 0 % 256 = w.toNat
  omega

section

variable (u : Uart)

theorem peekWord_data : u.peekWord 0 = u.received.head?.elim 0 UInt8.toUInt32 := by
  unfold Uart.peekWord
  cases u.received <;> rfl

theorem readByte_data : (u.readByte 0).1.toUInt32 = u.peekWord 0 := by
  show (lane (u.peekWord 0) 0).toUInt32 = _
  refine toUInt32_lane_zero ?_
  rw [peekWord_data]
  cases u.received with
  | nil => decide
  | cons v vs => exact v.toNat_lt

theorem status_lt : u.status.toNat < 256 := by
  unfold Uart.status
  split <;> decide

theorem readByte_status : (u.readByte 4).1.toUInt32 = u.status := by
  have place : lane u.status 4 = lane u.status 0 := lane_congr _ rfl
  show (lane u.status 4).toUInt32 = u.status
  rw [place, toUInt32_lane_zero (status_lt u)]

theorem bits_status : bit u.status 0 ∧ (bit u.status 1 ↔ u.received ≠ []) := by
  unfold Uart.status
  cases u.received <;> simp <;> decide

end

section

variable {b : Board} (h : b.Wired)

include h

theorem peek_uart {a k : Address} (place : align a = uartBase + k) (word : k = 0 ∨ k = 4) :
    b.peek a = b.uart.peekWord k := by
  have inside : uartBase + k - uartBase = k := by rw [UInt32.add_comm, UInt32.add_sub_cancel]
  unfold peek
  rw [place, h.find?_uart word]
  show (b.devices.get uartSlot).peekWord (uartBase + k - uartBase) = _
  rw [h.device_uart, inside]
  rfl

theorem readByte_uart {k : Address} (word : k = 0 ∨ k = 4) :
    (b.readByte (uartBase + k)).1 = (b.uart.readByte k).1 := by
  have counted : ({ b with reads := b.reads + 1 } : Board).find? (uartBase + k) = b.find? (uartBase + k) := rfl
  have inside : uartBase + k - uartBase = k := by rw [UInt32.add_comm, UInt32.add_sub_cancel]
  unfold readByte
  simp only [counted, h.find?_uart word]
  show ((b.devices.get uartSlot).readByte (uartBase + k - uartBase)).1 = _
  rw [h.device_uart, inside]
  rfl

/-- The oldest byte, and 0 when the queue is empty. -/
theorem answer_data {e : Event} (reads : e.readsData) :
    e.answer b = some (b.uart.received.head?.elim 0 UInt8.toUInt32) := by
  have data (a : Address) (place : align a = uartBase) : b.peek a = b.uart.received.head?.elim 0 UInt8.toUInt32 := by
    rw [peek_uart h (k := 0) place (.inl rfl), peekWord_data]
  cases e with
  | bus t =>
    cases t with
    | request r =>
      cases r with
      | fetch a =>
        have place : align a = uartBase := by simpa [Event.readsData] using reads
        exact congrArg some ((b.fetch_fst a).trans (data a place))
      | read a =>
        have place : align a = uartBase := by simpa [Event.readsData] using reads
        exact congrArg some ((b.read_fst a).trans (data a place))
      | readByte a =>
        obtain rfl : a = uartBase := by simpa [Event.readsData] using reads
        have lowest : (b.readByte uartBase).1 = (b.uart.readByte 0).1 := readByte_uart h (.inl rfl)
        show some (b.readByte uartBase).1.toUInt32 = _
        rw [lowest, readByte_data, peekWord_data]
      | _ => cases reads
    | _ => cases reads
  | readWord o =>
    obtain rfl : o = 0 := by simpa [Event.readsData] using reads
    exact congrArg some (peekWord_data b.uart)
  | readByte o =>
    obtain rfl : o = 0 := by simpa [Event.readsData] using reads
    show some (b.uart.readByte 0).1.toUInt32 = _
    rw [readByte_data, peekWord_data]
  | _ => cases reads

theorem answer_status {e : Event} (shows : e.showsStatus) : e.answer b = some b.uart.status := by
  have status (a : Address) (place : align a = uartBase + 4) : b.peek a = b.uart.status :=
    peek_uart h place (.inr rfl)
  cases e with
  | bus t =>
    cases t with
    | request r =>
      cases r with
      | fetch a =>
        have place : align a = uartBase + 4 := by simpa [Event.showsStatus] using shows
        exact congrArg some ((b.fetch_fst a).trans (status a place))
      | read a =>
        have place : align a = uartBase + 4 := by simpa [Event.showsStatus] using shows
        exact congrArg some ((b.read_fst a).trans (status a place))
      | readByte a =>
        obtain rfl : a = uartBase + 4 := by simpa [Event.showsStatus] using shows
        show some (b.readByte (uartBase + 4)).1.toUInt32 = _
        rw [readByte_uart h (.inr rfl), readByte_status]
      | _ => cases shows
    | peek a =>
      have place : align a = uartBase + 4 := by simpa [Event.showsStatus] using shows
      exact congrArg some (status a place)
    | _ => cases shows
  | readWord o | peekWord o =>
    obtain rfl : o = 4 := by simpa [Event.showsStatus] using shows
    rfl
  | readByte o =>
    obtain rfl : o = 4 := by simpa [Event.showsStatus] using shows
    exact congrArg some (readByte_status b.uart)
  | _ => cases shows

end

/-! ### What an event leaves on the queue -/

section

variable {b : Board} (h : b.Wired)

include h

theorem received_of_reads {e : Event} (reads : e.readsData) :
    (e.perform b).uart.received = b.uart.received.tail := by
  have access : e.isAccess := by
    cases e with
    | bus t =>
      cases t with
      | request q =>
        cases q with
        | reset => cases reads
        | _ => rfl
      | inject bytes => cases reads
      | _ => rfl
    | reset | clearTranscript | setEcho on => cases reads
    | _ => rfl
  rw [(moved_of_access h access).received, if_pos reads]

theorem received_of_other {e : Event} (other : e.readsData = false) (stays : e.isReset = false) :
    (e.perform b).uart.received = b.uart.received ++ e.injects := by
  have moved (u : Uart) : Board.uart (b.setUart u) = u := b.uart_settle (u, none)
  have untouched (access : e.isAccess) (none : e.injects = []) :
      (e.perform b).uart.received = b.uart.received ++ e.injects := by
    rw [(moved_of_access h access).received, other, none, List.append_nil]
    rfl
  cases e with
  | bus t =>
    cases t with
    | request q =>
      cases q with
      | reset => cases stays
      | _ => exact untouched rfl rfl
    | inject bytes => exact congrArg Uart.received (moved (b.uart.inject bytes))
    | _ => exact untouched rfl rfl
  | reset => cases stays
  | clearTranscript =>
    exact (congrArg Uart.received (moved b.uart.clearTranscript)).trans (List.append_nil _).symm
  | setEcho on =>
    exact (congrArg Uart.received (moved { b.uart with echo := on })).trans (List.append_nil _).symm
  | _ => exact untouched rfl rfl

end

/-! ## Any events -/

/-- What should have passed: the bytes injected and the answers of the reads of DATA that found
    one waiting, since the last reset; the bytes sent since then or since the transcript was
    last cleared; and those sent while the echo was on. -/
structure Record where
  injected : List Byte
  handed : List Word
  transmitted : List Byte
  echoing : Bool
  echoed : List Byte

namespace Record

/-- On a line just reset. -/
def fresh (echoing : Bool) : Record := ⟨[], [], [], echoing, []⟩

/-- An event on a line in state `b`. The board is asked only whether a byte is waiting and
    what it answers. -/
def note (r : Record) (b : Board) (e : Event) : Record where
  injected := if e.isReset then [] else r.injected ++ e.injects
  handed :=
    if e.isReset then []
    else if e.readsData && !b.uart.received.isEmpty then r.handed ++ (e.answer b).toList else r.handed
  transmitted :=
    match e with
    | .bus (.request .reset) | .reset | .clearTranscript => []
    | e => r.transmitted ++ e.sends
  echoing :=
    match e with
    | .setEcho on => on
    | _ => r.echoing
  echoed := if r.echoing then r.echoed ++ e.sends else r.echoed

theorem note_access {e : Event} (access : e.isAccess) (r : Record) (b : Board) :
    r.note b e =
      { r with
        handed := if e.readsData && !b.uart.received.isEmpty then r.handed ++ (e.answer b).toList else r.handed
        transmitted := r.transmitted ++ e.sends
        echoed := if r.echoing then r.echoed ++ e.sends else r.echoed } := by
  have kept : r.injected ++ [] = r.injected := List.append_nil _
  cases e with
  | bus t =>
    cases t with
    | request q =>
      cases q with
      | reset => cases access
      | _ => exact congrArg (Record.mk · _ _ _ _) kept
    | inject bytes => cases access
    | _ => exact congrArg (Record.mk · _ _ _ _) kept
  | reset | clearTranscript | setEcho on => cases access
  | _ => exact congrArg (Record.mk · _ _ _ _) kept

end Record

/-- A board and its record, after one more event. -/
def step (x : Board × Record) (e : Event) : Board × Record := (e.perform x.1, x.2.note x.1 e)

/-- The line lost, repeated and moved nothing. `c` is the console at the start, newest byte
    first. -/
structure Keeps (c : List Byte) (b : Board) (r : Record) : Prop where
  wired : b.Wired
  echo : b.uart.echo = r.echoing
  queue : r.handed ++ b.uart.received.map UInt8.toUInt32 = r.injected.map UInt8.toUInt32
  transcript : b.uart.transcript = r.transmitted
  console : b.console = r.echoed.reverse ++ c

namespace Keeps

theorem fresh {b : Board} (wired : b.Wired) : Keeps b.console b.reset (.fresh b.uart.echo) where
  wired := wired.of_build b.build_reset
  echo := by rw [uart_reset wired]; rfl
  queue := by rw [uart_reset wired]; rfl
  transcript := by rw [uart_reset wired]; rfl
  console := rfl

variable {c : List Byte} {b : Board} {r : Record} (h : Keeps c b r)

include h

theorem uart_transcript (b' : Board) (sends : List Byte) (sent : b'.uart.sent = sends.reverse ++ b.uart.sent) :
    b'.uart.transcript = r.transmitted ++ sends := by
  rw [← h.transcript, Uart.transcript, sent, List.reverse_append, List.reverse_reverse]
  rfl

/-- An access, whatever it is. -/
theorem access {e : Event} (access : e.isAccess) : Keeps c (e.perform b) (r.note b e) := by
  have moved := moved_of_access h.wired access
  rw [Record.note_access access]
  refine ⟨wired_perform h.wired e, moved.echo.trans h.echo, ?_, h.uart_transcript _ _ moved.sent, ?_⟩
  · have queue := h.queue
    show (if e.readsData && !b.uart.received.isEmpty then r.handed ++ (e.answer b).toList else r.handed) ++
      (e.perform b).uart.received.map UInt8.toUInt32 = r.injected.map UInt8.toUInt32
    rw [moved.received]
    cases reads : e.readsData with
    | false => exact queue
    | true =>
      -- What leaves the queue is what the event hands back.
      rw [answer_data h.wired reads]
      cases waiting : b.uart.received with
      | nil =>
        rw [waiting] at queue
        exact queue
      | cons v vs =>
        rw [waiting] at queue
        rw [← queue]
        simp
  · show (e.perform b).console = (if r.echoing then r.echoed ++ e.sends else r.echoed).reverse ++ c
    rw [moved.console, h.echo, h.console]
    split
    · rw [List.reverse_append, List.append_assoc]
    · rfl

theorem reset : Keeps c b.reset (r.note b (.bus (.request .reset))) where
  wired := h.wired.of_build b.build_reset
  echo := by rw [uart_reset h.wired]; exact h.echo
  queue := by rw [uart_reset h.wired]; rfl
  transcript := by rw [uart_reset h.wired]; rfl
  console := by
    show b.console = (if r.echoing then r.echoed ++ [] else r.echoed).reverse ++ c
    rw [List.append_nil, ite_self, h.console]

/-- The other side only changes the UART. -/
theorem setUart {u : Uart} {r' : Record} (echo : u.echo = r'.echoing)
    (queue : r'.handed ++ u.received.map UInt8.toUInt32 = r'.injected.map UInt8.toUInt32)
    (transcript : u.transcript = r'.transmitted) (echoed : r'.echoed = r.echoed) : Keeps c (b.setUart u) r' := by
  have uart : Board.uart (b.setUart u) = u := b.uart_settle (u, none)
  exact ⟨h.wired.setDevice rfl, by rw [uart, echo], by rw [uart, queue], by rw [uart, transcript],
    by rw [echoed, ← h.console]; rfl⟩

theorem step (e : Event) : Keeps c (e.perform b) (r.note b e) := by
  have silent : (if r.echoing then r.echoed ++ [] else r.echoed) = r.echoed := by simp
  have sent : b.uart.transcript = r.transmitted ++ [] := by rw [h.transcript, List.append_nil]
  have kept : r.injected ++ [] = r.injected := List.append_nil _
  cases e with
  | bus t =>
    cases t with
    | request q =>
      cases q with
      | reset => exact h.reset
      | _ => exact h.access rfl
    | inject bytes =>
      refine h.setUart h.echo ?_ sent silent
      show r.handed ++ (b.uart.received ++ bytes).map UInt8.toUInt32 = (r.injected ++ bytes).map UInt8.toUInt32
      rw [List.map_append, List.map_append, ← List.append_assoc, h.queue]
    | _ => exact h.access rfl
  | reset => exact h.setUart h.echo rfl rfl silent
  | clearTranscript =>
    refine h.setUart h.echo ?_ rfl silent
    show r.handed ++ b.uart.received.map UInt8.toUInt32 = (r.injected ++ []).map UInt8.toUInt32
    rw [kept, h.queue]
  | setEcho on =>
    refine h.setUart rfl ?_ sent silent
    show r.handed ++ b.uart.received.map UInt8.toUInt32 = (r.injected ++ []).map UInt8.toUInt32
    rw [kept, h.queue]
  | _ => exact h.access rfl

theorem run (es : List Event) : let (b', r') := es.foldl Line.step (b, r); Keeps c b' r' := by
  induction es generalizing b r with
  | nil => exact h
  | cons e es ih => exact ih (h.step e)

end Keeps

/-- What a record `r` of events that began on `start` says of the board `b` they led to. What
    comes next takes the oldest byte if it reads DATA, and hands back 0 if there is none;
    otherwise it takes nothing. -/
structure Faithful (start b : Board) (r : Record) : Prop where
  queue : r.handed ++ b.uart.received.map UInt8.toUInt32 = r.injected.map UInt8.toUInt32
  transcript : b.uart.transcript = r.transmitted
  console : b.console = r.echoed.reverse ++ start.console
  takes : ∀ e : Event, e.readsData → e.answer b = some (b.uart.received.head?.elim 0 UInt8.toUInt32) ∧
    (e.perform b).uart.received = b.uart.received.tail
  leaves : ∀ e : Event, e.readsData = false → e.isReset = false →
    (e.perform b).uart.received = b.uart.received ++ e.injects
  status : ∀ e : Event, e.showsStatus → ∃ w, e.answer b = some w ∧ bit w 0 ∧ (bit w 1 ↔ b.uart.received ≠ [])

/-- From a reset on, with the record kept by the events alone: the bytes that the reads of DATA
    handed back, and then those still queued, are those injected; the transcript and the
    console are what was sent. -/
theorem line_faithful {b : Board} (wired : b.Wired) (es : List Event) :
    let (b', r) := es.foldl step (b.reset, .fresh b.uart.echo)
    Faithful b b' r := by
  have keeps := (Keeps.fresh wired).run es
  generalize es.foldl step (b.reset, .fresh b.uart.echo) = x at keeps ⊢
  obtain ⟨b', r⟩ := x
  constructor
  case queue => exact keeps.queue
  case transcript => exact keeps.transcript
  case console => exact keeps.console
  case takes => exact fun e reads => ⟨answer_data keeps.wired reads, received_of_reads keeps.wired reads⟩
  case leaves => exact fun e other stays => received_of_other keeps.wired other stays
  case status => exact fun e shows => ⟨b'.uart.status, answer_status keeps.wired shows, bits_status b'.uart⟩

/-- Reads that take and reads that do not, stores into every lane, and a load that runs over
    the start of the UART. -/
def chatter : List Event :=
  [.bus (.inject [0x41, 0x42]), .bus (.peek 0xFFFF0000), .bus (.request (.readByte 0xFFFF0001)),
    .bus (.request (.writeByte 0xFFFF0009 7)), .bus (.request (.fetch 0xFFFF0002)),
    .bus (.request (.write 0xFFFF0000 0x158)), .clearTranscript, .setEcho true,
    .bus (.request (.loadBytes 0xFFFEFFFF [1, 2, 3])), .writeByte 0 0x5A, .bus (.request (.readByte 0xFFFF0004))]

theorem line_faithful_chatter :
    Board.empty.Wired ∧
      let (b', r) := chatter.foldl step (Board.empty.reset, .fresh Board.empty.uart.echo)
      (r.injected = [0x41, 0x42] ∧ r.handed = [0x41] ∧ r.transmitted = [2, 0x5A]) ∧
        r.handed ++ b'.uart.received.map UInt8.toUInt32 = r.injected.map UInt8.toUInt32 ∧
        b'.uart.transcript = r.transmitted ∧
        (Event.perform b' (.readByte 0)).uart.received = b'.uart.received.tail :=
  have faithful := line_faithful wired_empty chatter
  ⟨wired_empty, by decide +kernel, faithful.queue, faithful.transcript, (faithful.takes (.readByte 0) rfl).2⟩

end Line

end FiveStageArm
