/-
  FiveStageArm.Proofs.Bus.Store — the board against a flat store of bytes. The reference
  knows no devices and no regions: a byte at every address, all 0 at first, a word being the
  four bytes from an aligned address up, lowest first.

  Requests come in any order, with looks at the bus and moves of the other side between
  them: bytes received, pins driven. A load of words starts at an aligned address.

  Proved:
  - `Mirrors.perform`: one transaction keeps a board in step with the reference, in every
    byte the board stores.
  - `byte_store`: so after any transactions all that is read from those bytes is what the
    reference holds; no store changes what STATUS and IN show; and outside the regions all
    reads 0 and only counters change.
-/

import FiveStageArm.Proofs.Bus.Placement

namespace FiveStageArm

/-! ## The reference -/

/-- A byte at every address. -/
abbrev Store := Address → Byte

namespace Store

def zero : Store := fun _ => 0

/-- Bits 8i to 8i + 7 of a word. -/
def byteOf (w : Word) (i : Nat) : Byte := UInt8.ofNat (w.toNat >>> (8 * i))

/-- The word that `a` falls in. -/
def word (s : Store) (a : Address) : Word :=
  let base := align a
  UInt32.ofNat ((s base).toNat + (s (base + 1)).toNat <<< 8 + (s (base + 2)).toNat <<< 16
    + (s (base + 3)).toNat <<< 24)

def setByte (s : Store) (a : Address) (v : Byte) : Store := fun c => if c = a then v else s c

/-- Sets the four bytes of the word that `a` falls in. -/
def setWord (s : Store) (a : Address) (w : Word) : Store := fun c =>
  let i := (c - align a).toNat
  if i < 4 then byteOf w i else s c

def setBytes (s : Store) (a : Address) : List Byte → Store
  | [] => s
  | v :: vs => (s.setByte a v).setBytes (a + 1) vs

def setWords (s : Store) (a : Address) : List Word → Store
  | [] => s
  | w :: ws => (s.setWord a w).setWords (a + 4) ws

theorem word_eq_ofBytes (s : Store) (a : Address) :
    s.word a = ofBytes (s (align a)) (s (align a + 1)) (s (align a + 2)) (s (align a + 3)) := by
  rw [← UInt32.toNat_inj, word, ← toNat_ofBytes, UInt32.ofNat_toNat]

theorem setWord_apply (s : Store) (a c : Address) (w : Word) :
    s.setWord a w c = if align c = align a then lane w c else s c := by
  have inWord := sub_lt_four_iff (c := c) (align_align a)
  unfold setWord
  simp only []
  by_cases h : align c = align a
  · rw [if_pos h, if_pos (inWord.mpr h), ← UInt8.toNat_inj, toNat_lane, ← h, toNat_sub_align, Nat.mul_comm]
    rfl
  · rw [if_neg h, if_neg fun place => h (inWord.mp place)]

end Store

namespace Bus

/-! ## Transactions -/

/-- A request, a look, or a move of the other side. -/
inductive Transaction where
  | request (r : Request)
  | peek (a : Address)
  | inject (bytes : List Byte)
  | setInputs (w : Word)

namespace Transaction

def perform (b : Board) : Transaction → Board
  | request r => r.perform b
  | peek _ => b
  | inject bytes => b.inject bytes
  | setInputs w => b.setInputs w

/-- What the transaction hands back, if it reads. -/
def answer (b : Board) : Transaction → Option Word
  | request (.fetch a) => some (b.fetch a).1
  | request (.read a) => some (b.read a).1
  | request (.readByte a) => some (b.readByte a).1.toUInt32
  | peek a => some (b.peek a)
  | _ => none

/-- A load of words starts at a word. -/
def aligned : Transaction → Bool
  | request (.loadWords a _) => align a == a
  | _ => true

def isWrite : Transaction → Bool
  | request (.write ..) | request (.writeByte ..) | request (.loadWords ..) | request (.loadBytes ..) => true
  | _ => false

/-- `count` addresses from `a` up. -/
def upFrom (a step : Address) : Nat → List Address
  | 0 => []
  | count + 1 => a :: upFrom (a + step) step count

/-- The transaction uses addresses, all of them with the property. -/
def At (P : Address → Prop) : Transaction → Prop
  | peek a => P a
  | request (.fetch a) | request (.read a) | request (.readByte a) => P a
  | request (.write a _) | request (.writeByte a _) => P a
  | request (.loadWords a ws) => ∀ c ∈ upFrom a 4 ws.length, P c
  | request (.loadBytes a vs) => ∀ c ∈ upFrom a 1 vs.length, P c
  | request .reset | inject _ | setInputs _ => False

end Transaction

/-- The bus with its counters at 0. -/
def uncounted {n : Nat} (b : Bus n) : Bus n := { b with fetches := 0, reads := 0, writes := 0, unmapped := 0 }

end Bus

namespace Store

open Bus

/-- What the reference makes of a transaction. -/
def perform (s : Store) : Transaction → Store
  | .request (.write a w) => if Protected a then s else s.setWord a w
  | .request (.writeByte a v) => if Protected a then s else s.setByte a v
  | .request (.loadWords a ws) => s.setWords a ws
  | .request (.loadBytes a vs) => s.setBytes a vs
  | .request .reset => zero
  | _ => s

def answer (s : Store) : Transaction → Option Word
  | .request (.fetch a) | .request (.read a) | .peek a => some (s.word a)
  | .request (.readByte a) => some (s a).toUInt32
  | _ => none

end Store

namespace Bus

open Board

theorem Wired.transaction {b : Board} (h : b.Wired) (t : Transaction) : (t.perform b).Wired := by
  cases t with
  | peek a => exact h
  | inject bytes => exact h.inject bytes
  | setInputs w => exact h.setInputs w
  | request r => exact h.of_build (r.build_perform b)

/-! ## What a read hands back -/

namespace Wired

variable {b : Board} (h : b.Wired)

include h

/-- A byte read hands back what a peek sees, save in DATA. -/
theorem readByte_fst {a : Address} (ha : align a ≠ uartBase) : (b.readByte a).1 = b.peekByte a := by
  have counted : ({ b with reads := b.reads + 1 } : Board).find? a = b.find? a := rfl
  unfold readByte
  simp only [counted]
  cases found : b.find? a with
  | none =>
    unfold Bus.peekByte peek
    rw [h.find?_align, found]
    exact (lane_zero a).symm
  | some r =>
    have hr := (h.find?_eq_some_iff.mp found).1
    rw [h.peekByte_eq found]
    refine Device.readByte_fst _ fun hu data => ha ?_
    rw [align_sub (base_aligned r hr)] at data
    exact (h.uart_data hr hu data).1

end Wired

/-! ## In step with the reference -/

/-- Every byte that the board stores is the reference's. -/
structure Mirrors (b : Board) (s : Store) : Prop where
  wired : b.Wired
  bytes : ∀ c, Stored c → b.peekByte c = s c

theorem mirrors_reset {b : Board} (h : b.Wired) : Mirrors b.reset .zero where
  wired := h.of_build b.build_reset
  bytes c hc := by
    obtain ⟨r, found, stores, -⟩ := h.find?_stored hc
    have same : b.reset.find? c = some r := found
    rw [(h.of_build b.build_reset).peekByte_eq same, get_devices_reset, if_pos (h.mapped _)]
    exact Device.peekByte_reset _ stores

theorem mirrors_empty : Mirrors .empty .zero :=
  have reset : Board.empty.reset = Board.empty := rfl
  reset ▸ mirrors_reset wired_empty

namespace Mirrors

variable {b : Board} {s : Store} (h : Mirrors b s)

include h

theorem peek {a : Address} (ha : Stored a) : b.peek a = s.word a := by
  refine eq_of_lane fun k hk => ?_
  have inWord : align (align a + k) = align a := align_add (align_align a) hk
  have place : lane (b.peek a) k = lane (b.peek a) (align a + k) := by
    rw [← lane_sub (align_align a) _ (align a + k), UInt32.add_comm, UInt32.add_sub_cancel]
  calc lane (b.peek a) k
      = b.peekByte (align a + k) := by rw [place, Bus.peekByte, Bus.peek, Bus.peek, inWord]
    _ = s (align a + k) := h.bytes _ (stored_of_align inWord ha)
    _ = lane (s.word a) k := by rw [Store.word_eq_ofBytes, lane_ofBytes s _ hk]

/-- What leaves every stored word leaves the board in step. -/
theorem of_peek {b' : Board} (wired : b'.Wired) (same : ∀ c, Stored c → b'.peek c = b.peek c) : Mirrors b' s where
  wired := wired
  bytes c hc := by
    rw [← h.bytes c hc, Bus.peekByte, same c hc]
    rfl

/-! ### One store -/

theorem loadWord {a : Address} (ha : align a = a) (w : Word) : Mirrors (b.loadWord a w) (s.setWord a w) where
  wired := h.wired.loadWords a [w]
  bytes c hc := by rw [h.wired.peekByte_loadWord hc ha, Store.setWord_apply, ha, h.bytes c hc]

theorem loadByte (a : Address) (v : Byte) : Mirrors (b.loadByte a v) (s.setByte a v) where
  wired := h.wired.of_build (b.build_loadBytes a [v])
  bytes c hc := by
    rw [h.wired.peekByte_loadByte hc, h.bytes c hc]
    rfl

theorem write (a : Address) (w : Word) : Mirrors (b.write a w) (if Protected a then s else s.setWord a w) where
  wired := h.wired.of_build (b.build_write a w)
  bytes c hc := by
    rw [h.wired.peekByte_write hc, h.bytes c hc]
    by_cases inWord : align c = align a
    · have word := protected_of_align inWord
      by_cases boot : Protected a <;> simp [boot, word, inWord, Store.setWord_apply]
    · by_cases boot : Protected a <;> simp [boot, inWord, Store.setWord_apply]

theorem writeByte (a : Address) (v : Byte) : Mirrors (b.writeByte a v) (if Protected a then s else s.setByte a v) where
  wired := h.wired.of_build (b.build_writeByte a v)
  bytes c hc := by
    rw [h.wired.peekByte_writeByte hc, h.bytes c hc]
    by_cases e : c = a
    · subst e
      by_cases boot : Protected c <;> simp [boot, Store.setByte]
    · by_cases boot : Protected a <;> simp [boot, e, Store.setByte]

/-! ### One transaction -/

theorem loadWords {a : Address} (ha : align a = a) (ws : List Word) : Mirrors (b.loadWords a ws) (s.setWords a ws) := by
  induction ws generalizing b s a with
  | nil => exact h
  | cons w ws ih => exact ih (h.loadWord ha w) (by rw [align_add_four, ha])

theorem loadBytes (a : Address) (vs : List Byte) : Mirrors (b.loadBytes a vs) (s.setBytes a vs) := by
  induction vs generalizing b s a with
  | nil => exact h
  | cons v vs ih => exact ih (h.loadByte a v) (a + 1)

theorem perform {t : Transaction} (aligned : t.aligned) : Mirrors (t.perform b) (s.perform t) := by
  have unread {c : Address} (hc : Stored c) (a : Address) : align a = uartBase → ¬Wired.QueueWord c :=
    fun _ => not_queueWord_of_stored hc
  have wired : (t.perform b).Wired := h.wired.transaction t
  cases t with
  | peek a => exact h
  | inject bytes => exact h.of_peek wired fun c hc => h.wired.peek_inject hc bytes
  | setInputs w => exact h.of_peek wired fun c hc => h.wired.peek_setInputs hc w
  | request r =>
    cases r with
    | fetch a => exact h.of_peek wired fun c hc => h.wired.peek_fetch (unread hc a)
    | read a => exact h.of_peek wired fun c hc => h.wired.peek_read (unread hc a)
    | readByte a => exact h.of_peek wired fun c hc => h.wired.peek_readByte (unread hc a)
    | write a w => exact h.write a w
    | writeByte a v => exact h.writeByte a v
    | loadWords a ws => exact h.loadWords (eq_of_beq aligned) ws
    | loadBytes a vs => exact h.loadBytes a vs
    | reset => exact mirrors_reset h.wired

theorem run {ts : List Transaction} (aligned : ∀ t ∈ ts, t.aligned) :
    Mirrors (ts.foldl Transaction.perform b) (ts.foldl Store.perform s) := by
  induction ts generalizing b s with
  | nil => exact h
  | cons t ts ih =>
    exact ih (h.perform (aligned t List.mem_cons_self)) fun u hu => aligned u (List.mem_cons_of_mem t hu)

/-! ### Answers -/

theorem answer {t : Transaction} (ht : t.At Stored) : t.answer b = s.answer t := by
  cases t with
  | peek a => exact congrArg some (h.peek ht)
  | inject | setInputs => rfl
  | request r =>
    cases r with
    | fetch a => exact congrArg some ((b.fetch_fst a).trans (h.peek ht))
    | read a => exact congrArg some ((b.read_fst a).trans (h.peek ht))
    | readByte a =>
      have data : align a ≠ uartBase := fun e => not_queueWord_of_stored ht (Or.inl e)
      show some (b.readByte a).1.toUInt32 = some (s a).toUInt32
      rw [h.wired.readByte_fst data, h.bytes a ht]
    | write | writeByte | loadWords | loadBytes | reset => rfl

end Mirrors

/-! ## Input words -/

namespace Wired

variable {b : Board} (h : b.Wired) {c : Address} (hc : IsInput c)

include h hc

theorem peek_write_input (a : Address) (w : Word) : (b.write a w).peek c = b.peek c := by
  rw [peek_write_eq]
  exact h.peek_storeAt_input hc fun d o k => d.peekWord_writeWord_input w

theorem peek_writeByte_input (a : Address) (v : Byte) : (b.writeByte a v).peek c = b.peek c := by
  rw [peek_writeByte_eq]
  exact h.peek_storeAt_input hc fun d o k => d.peekWord_writeByte_input v

theorem peek_loadWords_input (a : Address) (ws : List Word) : (b.loadWords a ws).peek c = b.peek c := by
  induction ws generalizing b a with
  | nil => rfl
  | cons w ws ih =>
    calc (b.loadWords a (w :: ws)).peek c
        = (b.loadWord a w).peek c := ih (h.loadWords a [w]) (a + 4)
      _ = b.peek c := h.peek_storeAt_input (f := (·.loadWord · w)) hc fun d o k => d.peekWord_loadWord_input w

theorem peek_loadBytes_input (a : Address) (vs : List Byte) : (b.loadBytes a vs).peek c = b.peek c := by
  induction vs generalizing b a with
  | nil => rfl
  | cons v vs ih =>
    calc (b.loadBytes a (v :: vs)).peek c
        = (b.loadByte a v).peek c := ih (h.of_build (b.build_loadBytes a [v])) (a + 1)
      _ = b.peek c := h.peek_storeAt_input (f := (·.loadByte · v)) hc fun d o k => d.peekWord_loadByte_input v

theorem peek_perform_input {t : Transaction} (writes : t.isWrite) : (t.perform b).peek c = b.peek c := by
  cases t with
  | peek | inject | setInputs => cases writes
  | request r =>
    cases r with
    | fetch | read | readByte | reset => cases writes
    | write a w => exact h.peek_write_input hc a w
    | writeByte a v => exact h.peek_writeByte_input hc a v
    | loadWords a ws => exact h.peek_loadWords_input hc a ws
    | loadBytes a vs => exact h.peek_loadBytes_input hc a vs

omit hc in
/-- What is read from STATUS and IN is what a peek sees of them. -/
theorem answer_input {b' : Board} (h' : b'.Wired) (same : ∀ c, IsInput c → b'.peek c = b.peek c) {q : Transaction}
    (hq : q.At IsInput) : q.answer b' = q.answer b := by
  cases q with
  | peek a => exact congrArg some (same a hq)
  | inject | setInputs => rfl
  | request r =>
    cases r with
    | fetch a =>
      show some (b'.fetch a).1 = some (b.fetch a).1
      rw [b'.fetch_fst, b.fetch_fst, same a hq]
    | read a =>
      show some (b'.read a).1 = some (b.read a).1
      rw [b'.read_fst, b.read_fst, same a hq]
    | readByte a =>
      have data : align a ≠ uartBase := by
        rcases hq with e | e <;> rw [e] <;> decide
      show some (b'.readByte a).1.toUInt32 = some (b.readByte a).1.toUInt32
      rw [h'.readByte_fst data, h.readByte_fst data, Bus.peekByte, same a hq]
      rfl
    | write | writeByte | loadWords | loadBytes | reset => rfl

end Wired

/-! ## Outside the regions -/

namespace Wired

variable {b : Board} (h : b.Wired)

include h

section

variable {a : Address} (ha : Outside a)

include ha

theorem peek_outside : b.peek a = 0 := by
  unfold peek
  rw [h.find?_align_outside ha]

theorem fetch_outside : b.fetch a = (0, { b with fetches := b.fetches + 1, unmapped := b.unmapped + 1 }) := by
  have nowhere : Bus.find? { b with fetches := b.fetches + 1 } (align a) = none := h.find?_align_outside ha
  unfold Bus.fetch readWordAt
  rw [nowhere]
  rfl

theorem read_outside : b.read a = (0, { b with reads := b.reads + 1, unmapped := b.unmapped + 1 }) := by
  have nowhere : Bus.find? { b with reads := b.reads + 1 } (align a) = none := h.find?_align_outside ha
  unfold read readWordAt
  rw [nowhere]
  rfl

theorem readByte_outside : b.readByte a = (0, { b with reads := b.reads + 1, unmapped := b.unmapped + 1 }) := by
  have nowhere : Bus.find? { b with reads := b.reads + 1 } a = none := h.find?_outside ha
  unfold readByte
  simp only [nowhere]
  rfl

theorem write_outside (w : Word) : b.write a w = { b with writes := b.writes + 1, unmapped := b.unmapped + 1 } := by
  have nowhere : Bus.find? { b with writes := b.writes + 1 } (align a) = none := h.find?_align_outside ha
  unfold write
  simp only [nowhere]
  rfl

theorem writeByte_outside (v : Byte) :
    b.writeByte a v = { b with writes := b.writes + 1, unmapped := b.unmapped + 1 } := by
  have nowhere : Bus.find? { b with writes := b.writes + 1 } a = none := h.find?_outside ha
  unfold writeByte
  simp only [nowhere]
  rfl

end

theorem loadWords_outside {a : Address} {ws : List Word} (ha : ∀ c ∈ Transaction.upFrom a 4 ws.length, Outside c) :
    b.loadWords a ws = b := by
  induction ws generalizing a with
  | nil => rfl
  | cons w ws ih =>
    obtain ⟨first, rest⟩ := List.forall_mem_cons.mp ha
    have missed : b.loadWord a w = b := by
      unfold loadWord
      rw [h.find?_outside first]
    rw [Bus.loadWords, missed, ih rest]

theorem loadBytes_outside {a : Address} {vs : List Byte} (ha : ∀ c ∈ Transaction.upFrom a 1 vs.length, Outside c) :
    b.loadBytes a vs = b := by
  induction vs generalizing a with
  | nil => rfl
  | cons v vs ih =>
    obtain ⟨first, rest⟩ := List.forall_mem_cons.mp ha
    have missed : b.loadByte a v = b := by
      unfold loadByte
      rw [h.find?_outside first]
    rw [Bus.loadBytes, missed, ih rest]

theorem outside {t : Transaction} (ht : t.At Outside) :
    (∀ w ∈ t.answer b, w = 0) ∧ (t.perform b).uncounted = b.uncounted := by
  have silent : ∀ w ∈ (none : Option Word), w = 0 := by
    rintro w ⟨⟩
  have zero : ∀ w ∈ some (0 : Word), w = 0 := by
    rintro w ⟨⟩
    rfl
  cases t with
  | peek a =>
    have answer : Transaction.answer b (.peek a) = some 0 := congrArg some (h.peek_outside ht)
    exact ⟨answer ▸ zero, rfl⟩
  | inject | setInputs => cases ht
  | request r =>
    cases r with
    | reset => cases ht
    | fetch a =>
      simp only [Transaction.answer, Transaction.perform, Request.perform, h.fetch_outside ht]
      exact ⟨zero, rfl⟩
    | read a =>
      simp only [Transaction.answer, Transaction.perform, Request.perform, h.read_outside ht]
      exact ⟨zero, rfl⟩
    | readByte a =>
      simp only [Transaction.answer, Transaction.perform, Request.perform, h.readByte_outside ht]
      exact ⟨zero, rfl⟩
    | write a w =>
      simp only [Transaction.perform, Request.perform, h.write_outside ht]
      exact ⟨silent, rfl⟩
    | writeByte a v =>
      simp only [Transaction.perform, Request.perform, h.writeByte_outside ht]
      exact ⟨silent, rfl⟩
    | loadWords a ws => exact ⟨silent, congrArg uncounted (h.loadWords_outside ht)⟩
    | loadBytes a vs => exact ⟨silent, congrArg uncounted (h.loadBytes_outside ht)⟩

end Wired

/-! ## Any transactions -/

/-- After any traffic the board's bytes are those of a plain map of addresses to bytes: what was
    stored last is what every way of reading answers. Inputs are not written, and outside the
    regions nothing is there. -/
theorem byte_store {ts : List Transaction} (aligned : ∀ t ∈ ts, t.aligned) :
    let b := ts.foldl Transaction.perform Board.empty
    let s := ts.foldl Store.perform .zero
    (∀ t : Transaction, t.At Stored → t.answer b = s.answer t) ∧
      (∀ t : Transaction, t.isWrite → ∀ q : Transaction, q.At IsInput → q.answer (t.perform b) = q.answer b) ∧
      ∀ t : Transaction, t.At Outside → (∀ w ∈ t.answer b, w = 0) ∧ (t.perform b).uncounted = b.uncounted := by
  intro b s
  have h : Mirrors b s := mirrors_empty.run aligned
  refine ⟨fun t ht => h.answer ht, fun t writes q hq => ?_, fun t ht => h.wired.outside ht⟩
  exact h.wired.answer_input (h.wired.transaction t) (fun c hc => h.wired.peek_perform_input hc writes) hq

/-- Loads across the end of the boot memory and past the end of the data memory, stores that
    are refused, misaligned or to one lane of a register, and moves of the other side. -/
def traffic : List Transaction :=
  [.request (.loadBytes 0x0FFE [1, 2, 3, 4]), .request (.write 0x0FFC 0xFFFFFFFF), .request (.writeByte 0x1001 0xAA),
    .inject [0x41], .request (.writeByte 0xFFFF0009 7), .request (.loadWords 0x1FFFC [0x11223344, 5]), .setInputs 9,
    .request (.write 0x1FFFE 0xA1B2C3D4), .peek 0x1000]

theorem byte_store_traffic :
    (∀ t ∈ traffic, t.aligned) ∧
      (let b := traffic.foldl Transaction.perform Board.empty
      let s := traffic.foldl Store.perform .zero
      ([0x0FFC, 0x1000, 0x1FFFC, 0xFFFF0008].map s.word = [0x02010000, 0x0000AA03, 0xA1B2C3D4, 0x700]) ∧
        Transaction.answer b (.request (.read 0x1003)) = s.answer (.request (.read 0x1003)) ∧
        Transaction.answer (b.write 0xFFFF0004 0) (.peek 0xFFFF0004) = Transaction.answer b (.peek 0xFFFF0004) ∧
        (b.fetch 0x20000).2.uncounted = b.uncounted) :=
  have aligned : ∀ t ∈ traffic, t.aligned := by decide
  have ⟨stored, inputs, outside⟩ := byte_store aligned
  ⟨aligned, by decide +kernel, stored (.request (.read 0x1003)) (show Stored 0x1003 by decide),
    inputs (.request (.write 0xFFFF0004 0)) rfl (.peek 0xFFFF0004) (show IsInput 0xFFFF0004 by decide),
    (outside (.request (.fetch 0x20000)) (show Outside 0x20000 by decide)).2⟩

end Bus

end FiveStageArm
