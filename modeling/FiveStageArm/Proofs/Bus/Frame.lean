/-
  FiveStageArm.Proofs.Bus.Frame — what an access to one word of a device leaves alone. A
  word is named by its aligned offset; a byte belongs to the word its offset aligns to.

  Proved:
  - `peekWord_writeWord` / `peekWord_writeByte`: a store to one word changes no other word
    of the device, whichever device it is.
  - `peekWord_readWord` / `peekWord_readByte`: a load changes no word but, in a UART, the
    two that show its queue: DATA at 0 and STATUS at 4.
-/

import FiveStageArm.Proofs.Alignment
import FiveStageArm.Bus.Device

namespace FiveStageArm

/-! ## Memories -/

namespace Memory

theorem byteAt_loadByte (m : Memory) (a c : Address) (b : Byte) :
    (m.loadByte a b).byteAt c = if a = c ∧ a < m.capacity then b else m.byteAt c := by
  unfold loadByte
  split
  · simp only [byteAt, Std.ExtTreeMap.getD_insert, Std.LawfulEqCmp.compare_eq_iff_eq]
    simp [*]
  · simp [*]

theorem wordAt_loadByte (m : Memory) {a c : Address} (b : Byte) (hc : align c = c) (h : align a ≠ c) :
    (m.loadByte a b).wordAt c = m.wordAt c := by
  have apart (k : Address) (hk : k.toNat < 4) : (m.loadByte a b).byteAt (c + k) = m.byteAt (c + k) := by
    rw [byteAt_loadByte, if_neg]
    rintro ⟨rfl, -⟩
    exact h (align_add hc hk)
  have first := apart 0 (by decide)
  rw [UInt32.add_zero] at first
  simp only [wordAt, first, apart 1 (by decide), apart 2 (by decide), apart 3 (by decide)]

theorem wordAt_loadWord (m : Memory) {a c : Address} (w : Word) (ha : align a = a) (hc : align c = c) (h : a ≠ c) :
    (m.loadWord a w).wordAt c = m.wordAt c := by
  have apart (k : Address) (hk : k.toNat < 4) : align (a + k) ≠ c := by rwa [align_add ha hk]
  have h1 : align (a + 1) ≠ c := apart 1 (by decide)
  have h2 : align (a + 1 + 1) ≠ c := by rw [UInt32.add_assoc]; exact apart 2 (by decide)
  have h3 : align (a + 1 + 1 + 1) ≠ c := by rw [UInt32.add_assoc, UInt32.add_assoc]; exact apart 3 (by decide)
  simp only [loadWord, wordBytes, loadBytes]
  rw [wordAt_loadByte _ _ hc h3, wordAt_loadByte _ _ hc h2, wordAt_loadByte _ _ hc h1,
    wordAt_loadByte _ _ hc (by rwa [ha])]

end Memory

/-! ## UARTs and pins -/

theorem Uart.peekWord_writeWord (u : Uart) {o c : Address} (w : Word) (h : o ≠ c) :
    (u.writeWord o w).1.peekWord c = u.peekWord c := by
  unfold Uart.writeWord
  split
  · rfl
  split
  · rename_i e
    subst e
    simp [Uart.peekWord, Uart.status, Ne.symm h]
  split
  · rename_i e
    subst e
    simp [Uart.peekWord, Uart.status, Ne.symm h]
  · rfl

theorem Uart.peekWord_readWord (u : Uart) {o c : Address} (h : o ≠ 0 ∨ c ≠ 0 ∧ c ≠ 4) :
    (u.readWord o).2.peekWord c = u.peekWord c := by
  unfold Uart.readWord
  split
  · obtain ⟨h0, h4⟩ : c ≠ 0 ∧ c ≠ 4 := h.resolve_left (by simpa)
    simp [Uart.peekWord, h0, h4]
  · rfl

theorem Gpio.readWord_writeWord (g : Gpio) {o c : Address} (w : Word) (h : o ≠ c) :
    (g.writeWord o w).readWord c = g.readWord c := by
  unfold Gpio.writeWord
  split
  · rename_i e
    subst e
    simp [Gpio.readWord, Ne.symm h]
  split
  · rename_i e
    subst e
    simp [Gpio.readWord, Ne.symm h]
  · rfl

/-! ## Devices -/

namespace Device

theorem peekWord_writeWord (d : Device) {o c : Address} (w : Word) (ho : align o = o) (hc : align c = c) (h : o ≠ c) :
    (d.writeWord o w).1.peekWord c = d.peekWord c := by
  cases d with
  | memory m =>
    simp only [writeWord, peekWord, Memory.writeWord]
    split
    · exact Memory.wordAt_loadWord _ w ho hc h
    · rfl
  | uart u => exact u.peekWord_writeWord w h
  | gpio g => exact g.readWord_writeWord w h

theorem peekWord_writeByte (d : Device) {o c : Address} (b : Byte) (hc : align c = c) (h : align o ≠ c) :
    (d.writeByte o b).1.peekWord c = d.peekWord c := by
  cases d with
  | memory m =>
    simp only [writeByte, peekWord, Memory.writeByte]
    split
    · exact Memory.wordAt_loadByte _ b hc h
    · rfl
  | uart u =>
    show (u.writeByte o b).1.peekWord c = u.peekWord c
    unfold Uart.writeByte
    split
    · split <;> rfl
    · exact u.peekWord_writeWord _ h
  | gpio g => exact g.readWord_writeWord _ h

/-- The words of a UART that show its queue. -/
def ShowsQueue (o : Address) : Prop := o = 0 ∨ o = 4

def isUart : Device → Bool
  | memory _ => false
  | uart _ => true
  | gpio _ => false

theorem peekWord_readWord (d : Device) {o c : Address} (h : d.isUart → o = 0 → ¬ShowsQueue c) :
    (d.readWord o).2.peekWord c = d.peekWord c := by
  cases d with
  | memory m => rfl
  | uart u =>
    refine u.peekWord_readWord ?_
    by_cases ho : o = 0
    · exact Or.inr (not_or.mp (h rfl ho))
    · exact Or.inl ho
  | gpio g => rfl

theorem peekWord_readByte (d : Device) {o c : Address} (h : d.isUart → o = 0 → ¬ShowsQueue c) :
    (d.readByte o).2.peekWord c = d.peekWord c := by
  cases d with
  | memory m => rfl
  | uart u =>
    show (u.readByte o).2.peekWord c = u.peekWord c
    unfold Uart.readByte
    split
    · rfl
    · rename_i lane
      refine u.peekWord_readWord ?_
      by_cases ho : align o = 0
      · have h0 : o = 0 := Decidable.not_not.mp fun hne => lane ⟨ho, hne⟩
        exact Or.inr (not_or.mp (h rfl h0))
      · exact Or.inl ho
  | gpio g => rfl

end Device

end FiveStageArm
