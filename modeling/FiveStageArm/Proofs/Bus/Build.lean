/-
  FiveStageArm.Proofs.Bus.Build — how a bus is built, whatever it holds: its regions, and
  each device as a reset leaves it. Accesses, loads and resets change contents and counters
  only, so they keep the build (`Request.build_perform`). A reset leaves nothing but the
  build, where a region leads to every device, and what the console holds (`quiet_reset`);
  and no load looks at the console (`quiet_loadBytes`).

  The fetch counter counts fetches: an instruction's own access leaves it (`fetches_access`).
-/

import FiveStageArm.Machine

namespace FiveStageArm

/-! ## Devices -/

theorem Memory.reset_loadByte (m : Memory) (a : Address) (b : Byte) : (m.loadByte a b).reset = m.reset := by
  unfold loadByte
  split <;> rfl

theorem Memory.reset_loadBytes (m : Memory) (a : Address) (bs : List Byte) : (m.loadBytes a bs).reset = m.reset := by
  induction bs generalizing m a with
  | nil => rfl
  | cons b bs ih => rw [loadBytes, ih, reset_loadByte]

theorem Uart.reset_writeWord (u : Uart) (o : Address) (w : Word) : (u.writeWord o w).1.reset = u.reset := by
  unfold writeWord
  repeat' split
  all_goals rfl

namespace Device

@[simp] theorem reset_reset (d : Device) : d.reset.reset = d.reset := by
  cases d <;> rfl

theorem reset_readWord (d : Device) (o : Address) : (d.readWord o).2.reset = d.reset := by
  cases d with
  | memory m => rfl
  | uart u =>
    simp only [readWord, Uart.readWord]
    split <;> rfl
  | gpio g => rfl

theorem reset_readByte (d : Device) (o : Address) : (d.readByte o).2.reset = d.reset := by
  cases d with
  | memory m => rfl
  | uart u =>
    simp only [readByte, Uart.readByte]
    split
    · rfl
    · exact reset_readWord (uart u) (align o)
  | gpio g => rfl

theorem reset_writeWord (d : Device) (o : Address) (w : Word) : (d.writeWord o w).1.reset = d.reset := by
  cases d with
  | memory m =>
    simp only [writeWord, Memory.writeWord]
    split
    · exact congrArg memory (Memory.reset_loadBytes m.countWrite o (wordBytes w))
    · rfl
  | uart u => exact congrArg uart (u.reset_writeWord o w)
  | gpio g => rfl

theorem reset_writeByte (d : Device) (o : Address) (b : Byte) : (d.writeByte o b).1.reset = d.reset := by
  cases d with
  | memory m =>
    simp only [writeByte, Memory.writeByte]
    split
    · exact congrArg memory (Memory.reset_loadByte m.countWrite o b)
    · rfl
  | uart u =>
    simp only [writeByte, Uart.writeByte]
    split
    · split <;> rfl
    · exact reset_writeWord (uart u) (align o) _
  | gpio g => rfl

theorem reset_loadWord (d : Device) (o : Address) (w : Word) : (d.loadWord o w).1.reset = d.reset := by
  cases d with
  | memory m => exact congrArg memory (Memory.reset_loadBytes m o (wordBytes w))
  | uart u => exact reset_writeWord (uart u) o w
  | gpio g => exact reset_writeWord (gpio g) o w

theorem reset_loadByte (d : Device) (o : Address) (b : Byte) : (d.loadByte o b).1.reset = d.reset := by
  cases d with
  | memory m => exact congrArg memory (Memory.reset_loadByte m o b)
  | uart u => exact reset_writeByte (uart u) o b
  | gpio g => exact reset_writeByte (gpio g) o b

end Device

/-! ## Buses -/

namespace Bus

variable {n : Nat}

def build (b : Bus n) : List (Region n) × Vector Device n := (b.regions, b.devices.map Device.reset)

variable (b : Bus n)

theorem reset_device_of_build {b b' : Bus n} (h : b.build = b'.build) (i : Fin n) :
    (b.devices.get i).reset = (b'.devices.get i).reset := by
  have same : (b.devices.map Device.reset)[i] = (b'.devices.map Device.reset)[i] := by
    rw [show b.devices.map Device.reset = b'.devices.map Device.reset from congrArg Prod.snd h]
  show b.devices[i].reset = b'.devices[i].reset
  simpa using same

theorem build_setDevice (i : Fin n) {d : Device} (h : d.reset = (b.devices.get i).reset) :
    (b.setDevice i d).build = b.build := by
  have self : (b.devices.get i).reset = (b.devices.map Device.reset)[i.val] := by
    show b.devices[i].reset = _
    simp
  rw [build, build, setDevice, Vector.map_set, h, self, Vector.set_getElem_self]

theorem build_settle (i : Fin n) {x : Device × Option Byte} (h : x.1.reset = (b.devices.get i).reset) :
    (b.settle i x).build = b.build := by
  obtain ⟨d, e⟩ := x
  cases e with
  | none => exact b.build_setDevice i h
  | some c => exact b.build_setDevice i h

/-! ### Accesses -/

theorem build_readWordAt (a : Address) : (b.readWordAt a).2.build = b.build := by
  unfold readWordAt
  split
  · rfl
  · exact b.build_setDevice _ (Device.reset_readWord _ _)

theorem build_fetch (a : Address) : (b.fetch a).2.build = b.build :=
  build_readWordAt { b with fetches := b.fetches + 1 } (align a)

theorem build_read (a : Address) : (b.read a).2.build = b.build :=
  build_readWordAt { b with reads := b.reads + 1 } (align a)

theorem build_readByte (a : Address) : (b.readByte a).2.build = b.build := by
  unfold readByte
  simp only []
  split
  · rfl
  · exact build_setDevice { b with reads := b.reads + 1 } _ (Device.reset_readByte _ _)

theorem build_write (a : Address) (w : Word) : (b.write a w).build = b.build := by
  unfold write
  simp only []
  split
  · rfl
  · exact build_settle { b with writes := b.writes + 1 } _ (Device.reset_writeWord _ _ _)

theorem build_writeByte (a : Address) (v : Byte) : (b.writeByte a v).build = b.build := by
  unfold writeByte
  simp only []
  split
  · rfl
  · exact build_settle { b with writes := b.writes + 1 } _ (Device.reset_writeByte _ _ _)

theorem build_access (i : Instruction) (a : Address) (v : Word) : (b.access i a v).2.build = b.build := by
  unfold access
  split
  · split
    · exact b.build_readByte a
    · exact b.build_read a
  split
  · split
    · exact b.build_writeByte a v.toUInt8
    · exact b.build_write a v
  · rfl

/-! ### Loading and resetting -/

theorem build_loadWords (a : Address) (ws : List Word) : (b.loadWords a ws).build = b.build := by
  induction ws generalizing b a with
  | nil => rfl
  | cons w ws ih =>
    rw [loadWords, ih]
    unfold loadWord
    split
    · rfl
    · exact b.build_settle _ (Device.reset_loadWord _ _ _)

theorem build_loadBytes (a : Address) (vs : List Byte) : (b.loadBytes a vs).build = b.build := by
  induction vs generalizing b a with
  | nil => rfl
  | cons v vs ih =>
    rw [loadBytes, ih]
    unfold loadByte
    split
    · rfl
    · exact b.build_settle _ (Device.reset_loadByte _ _ _)

/-- A device behind some region is reset, and only once matters. -/
theorem get_devices_reset (i : Fin n) :
    b.reset.devices.get i =
      if b.regions.any (·.device == i) then (b.devices.get i).reset else b.devices.get i := by
  show (b.regions.foldl (fun ds r => ds.set r.device ds[r.device].reset) b.devices)[i] =
    if b.regions.any (·.device == i) then b.devices[i].reset else b.devices[i]
  generalize b.devices = ds
  induction b.regions generalizing ds with
  | nil => rfl
  | cons r rs ih =>
    rw [List.foldl_cons, ih, List.any_cons]
    by_cases e : r.device = i
    · subst e
      simp
    · have hne : r.device.val ≠ i.val := fun h => e (Fin.ext h)
      simp [Vector.getElem_set_ne, hne, e]

theorem build_reset : b.reset.build = b.build := by
  refine Prod.ext rfl (Vector.ext fun i hi => ?_)
  have same : b.reset.devices[i] = _ := b.get_devices_reset ⟨i, hi⟩
  simp only [build, Vector.getElem_map, same]
  split
  · exact Device.reset_reset _
  · rfl

/-- Where a region leads to every device, a reset leaves nothing but the build, and the
    console. -/
theorem devices_reset (mapped : ∀ i, b.regions.any (·.device == i)) : b.reset.devices = b.devices.map Device.reset := by
  refine Vector.ext fun i hi => ?_
  have same := b.get_devices_reset ⟨i, hi⟩
  rw [if_pos (mapped ⟨i, hi⟩)] at same
  rw [Vector.getElem_map]
  exact same

/-! ### The console -/

/-- The bus with its console cleared. -/
def quiet (b : Bus n) : Bus n := { b with console := [] }

theorem quiet_reset (mapped : ∀ i, b.regions.any (·.device == i)) :
    b.reset.quiet = ⟨b.build.2, b.build.1, 0, 0, 0, 0, []⟩ := by
  have devices := b.devices_reset mapped
  unfold quiet
  rw [devices]
  rfl

theorem quiet_settle (i : Fin n) (x : Device × Option Byte) : (b.settle i x).quiet = (b.quiet.settle i x).quiet := by
  obtain ⟨d, e⟩ := x
  cases e <;> rfl

theorem quiet_loadByte (a : Address) (v : Byte) : (b.loadByte a v).quiet = (b.quiet.loadByte a v).quiet := by
  have same : b.quiet.find? a = b.find? a := rfl
  unfold loadByte
  rw [same]
  cases b.find? a with
  | none => rfl
  | some r => exact b.quiet_settle _ _

/-- What is on the console makes no difference to a load. -/
theorem quiet_loadBytes (a : Address) (vs : List Byte) :
    (b.loadBytes a vs).quiet = (b.quiet.loadBytes a vs).quiet := by
  induction vs generalizing b a with
  | nil => rfl
  | cons v vs ih =>
    rw [loadBytes, loadBytes, ih, quiet_loadByte, ← ih]

/-! ### Requests -/

/-- What a host may ask of a bus that could change it. -/
inductive Request where
  | fetch (a : Address)
  | read (a : Address)
  | readByte (a : Address)
  | write (a : Address) (w : Word)
  | writeByte (a : Address) (v : Byte)
  | loadWords (a : Address) (ws : List Word)
  | loadBytes (a : Address) (vs : List Byte)
  | reset

def Request.perform (b : Bus n) : Request → Bus n
  | fetch a => (b.fetch a).2
  | read a => (b.read a).2
  | readByte a => (b.readByte a).2
  | write a w => b.write a w
  | writeByte a v => b.writeByte a v
  | loadWords a ws => b.loadWords a ws
  | loadBytes a vs => b.loadBytes a vs
  | reset => b.reset

theorem Request.build_perform (r : Request) : (r.perform b).build = b.build := by
  cases r with
  | fetch a => exact b.build_fetch a
  | read a => exact b.build_read a
  | readByte a => exact b.build_readByte a
  | write a w => exact b.build_write a w
  | writeByte a v => exact b.build_writeByte a v
  | loadWords a ws => exact b.build_loadWords a ws
  | loadBytes a vs => exact b.build_loadBytes a vs
  | reset => exact b.build_reset

/-! ### The fetch counter -/

theorem fetches_settle (i : Fin n) (x : Device × Option Byte) : (b.settle i x).fetches = b.fetches := by
  obtain ⟨d, e⟩ := x
  cases e <;> rfl

theorem fetches_readWordAt (a : Address) : (b.readWordAt a).2.fetches = b.fetches := by
  unfold readWordAt
  split <;> rfl

theorem fetches_fetch (a : Address) : (b.fetch a).2.fetches = b.fetches + 1 :=
  fetches_readWordAt { b with fetches := b.fetches + 1 } (align a)

theorem fetches_access (i : Instruction) (a : Address) (v : Word) : (b.access i a v).2.fetches = b.fetches := by
  unfold access
  split
  · split
    · show (b.readByte a).2.fetches = b.fetches
      unfold readByte
      simp only []
      split <;> rfl
    · exact fetches_readWordAt { b with reads := b.reads + 1 } (align a)
  split
  · split
    · show (b.writeByte a v.toUInt8).fetches = b.fetches
      unfold writeByte
      simp only []
      split
      · rfl
      · exact fetches_settle _ _ _
    · show (b.write a v).fetches = b.fetches
      unfold write
      simp only []
      split
      · rfl
      · exact fetches_settle _ _ _
  · rfl

end Bus

end FiveStageArm
