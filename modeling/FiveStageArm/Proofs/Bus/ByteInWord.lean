/-
  FiveStageArm.Proofs.Bus.ByteInWord — whether a byte access sees the byte that a word access
  sees there. A byte access looks up its own address, a word access the address of the word;
  where both find one region, both reach the same byte of the memory behind it. They find
  one region as long as it does not begin inside the word.

  The map is any that the bus accepts, with memories that are as large as their regions
  (`Backed`); the contents are any at all (`build`). Nothing asks that a base be a word's
  address. From a base that is not, a region's first bytes are in no word of its own
  (`byte_in_word_torn`), and its words have offsets that no word of a device has.

  Proved, for an address in a region: a byte read there is a lane of the word read, whatever the
  memories hold, exactly when the region begins no later than the word. A word access hands
  the device the distance from the region's base, which is a word's exactly when the base is.
  So with words' addresses for bases both hold everywhere (`byte_in_word`).
-/

import FiveStageArm.Proofs.Bus.Placement

namespace FiveStageArm

/-- A word read from wherever holds the bytes from there up. -/
theorem Memory.lane_wordAt (m : Memory) (a base : Address) :
    lane (m.wordAt (align a - base)) a = m.byteAt (a - base) := by
  have place := toNat_sub_align a
  have same : lane (m.wordAt (align a - base)) a = lane (m.wordAt (align a - base)) (a - align a) :=
    lane_congr _ (by omega)
  have offset : align a - base + (a - align a) = a - base := by
    rw [UInt32.sub_eq_add_neg (align a), UInt32.add_comm (align a), UInt32.add_assoc, add_sub_align, UInt32.add_comm,
      ← UInt32.sub_eq_add_neg]
  rw [same, wordAt, lane_ofBytes m.byteAt _ (by omega), offset]

namespace Bus

variable {n : Nat}

/-- Behind every region stands a memory as large as the region. -/
def Backed (b : Bus n) : Prop := ∀ r ∈ b.regions, ∃ m, b.devices.get r.device = .memory m ∧ r.size ≤ m.capacity

/-- What a byte read at `a` hands back is the lane of `a` in the word there. -/
structure AgreesAt (b : Bus n) (a : Address) : Prop where
  read : (b.readByte a).1 = lane (b.read a).1 a
  peek : (b.readByte a).1 = lane (b.peek a) a

/-- What word accesses at `a` do is what device `i` does at offset `o`. -/
structure HandsOver (b : Bus n) (a : Address) (i : Fin n) (o : Address) : Prop where
  fetch : (b.fetch a).1 = ((b.devices.get i).readWord o).1 ∧
    (b.fetch a).2.devices = (b.setDevice i ((b.devices.get i).readWord o).2).devices
  read : (b.read a).1 = ((b.devices.get i).readWord o).1 ∧
    (b.read a).2.devices = (b.setDevice i ((b.devices.get i).readWord o).2).devices
  write : ∀ w, (b.write a w).devices = (b.setDevice i ((b.devices.get i).writeWord o w).1).devices
  peek : b.peek a = (b.devices.get i).peekWord o

theorem Backed.of_build {b b' : Bus n} (h : b.Backed) (e : b'.build = b.build) : b'.Backed := by
  have regions : b'.regions = b.regions := congrArg Prod.fst e
  intro r hr
  obtain ⟨m, hm, room⟩ := h r (regions ▸ hr)
  have kind := reset_device_of_build e r.device
  rw [hm] at kind
  cases hd : b'.devices.get r.device with
  | memory m' =>
    rw [hd] at kind
    have emptied : m'.reset = m.reset := Device.memory.inj kind
    have capacity : m'.reset.capacity = m.reset.capacity := by rw [emptied]
    exact ⟨m', rfl, capacity ▸ room⟩
  | uart u | gpio g =>
    rw [hd] at kind
    cases kind

/-! ## Regions -/

/-- Regions are found alike however the devices have been used. -/
theorem find?_of_build {b b' : Bus n} (e : b'.build = b.build) (a : Address) : b'.find? a = b.find? a := by
  unfold find?
  rw [show b'.regions = b.regions from congrArg Prod.fst e]

section

variable {b : Bus n} (orderly : Orderly b.regions) {a : Address} {r : Region n} (found : b.find? a = some r)

include orderly found

theorem find?_align_eq_iff : b.find? (align a) = some r ↔ r.base ≤ align a := by
  obtain ⟨hr, low, high⟩ := (find?_eq_some_iff orderly).mp found
  have below := toNat_align a
  rw [find?_eq_some_iff orderly, UInt32.le_iff_toNat_le]
  constructor
  · rintro ⟨-, le, -⟩
    exact le
  · intro le
    exact ⟨hr, le, by omega⟩

end

/-! ## Accesses -/

section

variable (b : Bus n) {a : Address} {r : Region n}

/-- A byte read reaches the byte behind the region of its address. -/
theorem readByte_of_find? (found : b.find? a = some r) {m : Memory} (hm : b.devices.get r.device = .memory m) :
    (b.readByte a).1 = m.byteAt (a - r.base) := by
  have counted : ({ b with reads := b.reads + 1 } : Bus n).find? a = some r := found
  have read : (b.readByte a).1 = ((b.devices.get r.device).readByte (a - r.base)).1 := by
    unfold readByte
    simp only [counted]
    rfl
  rw [read, hm]
  rfl

/-- A word access reaches it behind the region of the word. -/
theorem lane_peek_of_find? (found : b.find? (align a) = some r) {m : Memory}
    (hm : b.devices.get r.device = .memory m) : lane (b.peek a) a = m.byteAt (a - r.base) := by
  have peek : b.peek a = (b.devices.get r.device).peekWord (align a - r.base) := by
    unfold peek
    rw [found]
    rfl
  rw [peek, hm]
  exact m.lane_wordAt a r.base

theorem readWordAt_of_find? (found : b.find? a = some r) :
    b.readWordAt a = (((b.devices.get r.device).readWord (a - r.base)).1,
      b.setDevice r.device ((b.devices.get r.device).readWord (a - r.base)).2) := by
  unfold readWordAt
  rw [found]
  rfl

theorem devices_settle (i : Fin n) (x : Device × Option Byte) :
    (b.settle i x).devices = (b.setDevice i x.1).devices := by
  obtain ⟨d, _ | v⟩ := x <;> rfl

theorem handsOver_of_find? (found : b.find? (align a) = some r) : b.HandsOver a r.device (align a - r.base) := by
  constructor
  case fetch =>
    have counted : ({ b with fetches := b.fetches + 1 } : Bus n).find? (align a) = some r := found
    unfold fetch
    rw [readWordAt_of_find? _ counted]
    exact ⟨rfl, rfl⟩
  case read =>
    have counted : ({ b with reads := b.reads + 1 } : Bus n).find? (align a) = some r := found
    unfold read
    rw [readWordAt_of_find? _ counted]
    exact ⟨rfl, rfl⟩
  case write =>
    intro w
    have counted : ({ b with writes := b.writes + 1 } : Bus n).find? (align a) = some r := found
    unfold write
    simp only [counted]
    exact devices_settle _ _ _
  case peek =>
    unfold peek
    rw [found]
    rfl

end

/-! ## One region -/

section

variable {b : Bus n} (orderly : Orderly b.regions) (backed : b.Backed) {a : Address} {r : Region n}
  (found : b.find? a = some r)

include orderly backed found

theorem agreesAt_of_base_le (whole : r.base ≤ align a) : b.AgreesAt a := by
  obtain ⟨m, hm, -⟩ := backed r ((find?_eq_some_iff orderly).mp found).1
  have word : b.find? (align a) = some r := (find?_align_eq_iff orderly found).mpr whole
  have peek : (b.readByte a).1 = lane (b.peek a) a := by
    rw [b.readByte_of_find? found hm, b.lane_peek_of_find? word hm]
  exact ⟨b.read_fst a ▸ peek, peek⟩

end

/-! ## Two regions -/

/-- Empty but for a 1 at `a`. -/
def marked (b : Bus n) (a : Address) : Bus n := { b with devices := b.devices.map Device.reset }.loadByte a 1

theorem build_marked (b : Bus n) (a : Address) : (b.marked a).build = b.build := by
  have emptied : ({ b with devices := b.devices.map Device.reset } : Bus n).build = b.build := by
    refine Prod.ext rfl (Vector.ext fun i hi => ?_)
    simp only [build, Vector.getElem_map, Device.reset_reset]
  exact (build_loadBytes _ a [1]).trans emptied

section

variable {b : Bus n} (orderly : Orderly b.regions) (backed : b.Backed) {a : Address} {r : Region n}
  (found : b.find? a = some r)

include found

theorem get_marked (i : Fin n) : (b.marked a).devices.get i =
    if r.device = i then ((b.devices.get i).reset.loadByte (a - r.base) 1).1 else (b.devices.get i).reset := by
  have emptied (j : Fin n) : (b.devices.map Device.reset).get j = (b.devices.get j).reset := by
    show (b.devices.map Device.reset)[j] = b.devices[j].reset
    simp
  have here : ({ b with devices := b.devices.map Device.reset } : Bus n).find? a = some r := found
  unfold marked loadByte
  rw [here]
  show (settle _ r.device (((b.devices.map Device.reset).get r.device).loadByte (a - r.base) 1)).devices.get i = _
  rw [get_settle, emptied]
  by_cases e : r.device = i
  · subst e
    rw [if_pos rfl, if_pos rfl]
  · rw [if_neg e, if_neg e]
    exact emptied i

include orderly backed

theorem readByte_marked : ((b.marked a).readByte a).1 = 1 := by
  obtain ⟨hr, spans⟩ := (find?_eq_some_iff orderly).mp found
  obtain ⟨m, hm, room⟩ := backed r hr
  have memory : (b.marked a).devices.get r.device = .memory (m.reset.loadByte (a - r.base) 1) := by
    rw [get_marked found, if_pos rfl, hm]
    rfl
  have inside : a - r.base < m.capacity := UInt32.lt_of_lt_of_le (sub_lt_of_spans spans) room
  have mapped := (find?_of_build (b.build_marked a) a).trans found
  rw [readByte_of_find? _ mapped memory, Memory.byteAt_loadByte, if_pos ⟨rfl, inside⟩]

/-- The word ends in a region before, or in none. -/
theorem lane_peek_marked (torn : ¬r.base ≤ align a) : lane ((b.marked a).peek a) a = 0 := by
  have mapped := find?_of_build (b.build_marked a)
  cases hs : b.find? (align a) with
  | none =>
    unfold peek
    rw [mapped, hs, lane_zero]
  | some s =>
    obtain ⟨hs', below, -⟩ := (find?_eq_some_iff orderly).mp hs
    obtain ⟨k, hk, -⟩ := backed s hs'
    -- even one memory behind both regions is read at another offset
    have apart : a - r.base ≠ a - s.base := by
      intro same
      rw [UInt32.sub_right_inj] at same
      rw [same, UInt32.le_iff_toNat_le] at torn
      exact torn below
    have memory : ∃ k', (b.marked a).devices.get s.device = .memory k' ∧ k'.byteAt (a - s.base) = 0 := by
      rw [get_marked found, hk]
      split
      · refine ⟨_, rfl, ?_⟩
        rw [Memory.byteAt_loadByte, if_neg fun both => apart both.1]
        rfl
      · exact ⟨_, rfl, rfl⟩
    obtain ⟨k', hk', blank⟩ := memory
    rw [lane_peek_of_find? _ ((mapped _).trans hs) hk', blank]

/-- The 1 is read where it stands and not in the word that ends before the region begins. -/
theorem not_agreesAt_marked (torn : ¬r.base ≤ align a) : ¬(b.marked a).AgreesAt a := by
  intro agrees
  have both := agrees.peek
  rw [readByte_marked orderly backed found, lane_peek_marked orderly backed found torn] at both
  cases both

end

/-! ## Any map -/

theorem align_sub_base_iff (a base : Address) : align (align a - base) = align a - base ↔ align base = base := by
  have word := toNat_align a
  have := base.toNat_lt
  have := a.toNat_lt
  rw [align_eq_self, align_eq_self, UInt32.toNat_sub]
  omega

theorem find?_base {b : Bus n} (orderly : Orderly b.regions) {r : Region n} (hr : r ∈ b.regions) :
    b.find? r.base = some r := by
  have pos := Region.size_pos (orderly.fits r hr).1
  exact (find?_eq_some_iff orderly).mpr ⟨hr, Nat.le_refl _, by omega⟩

theorem base_le_align_iff (base : Address) : base ≤ align base ↔ align base = base := by
  rw [UInt32.le_iff_toNat_le, align_eq_self, toNat_align]
  omega

theorem base_le_align_of_spans {r : Region n} {a : Address} (hb : align r.base = r.base) (spans : r.Spans a) :
    r.base ≤ align a := by
  have low := spans.1
  rw [align_eq_self] at hb
  rw [UInt32.le_iff_toNat_le, toNat_align]
  omega

section

variable {mapped : Bus n} (orderly : Orderly mapped.regions) (backed : mapped.Backed)

include orderly backed

theorem agreesAt_iff {a : Address} {r : Region n} (found : mapped.find? a = some r) :
    (∀ b : Bus n, b.build = mapped.build → b.AgreesAt a) ↔ r.base ≤ align a := by
  constructor
  · intro agrees
    exact Decidable.byContradiction fun torn =>
      not_agreesAt_marked orderly backed found torn (agrees _ (mapped.build_marked a))
  · intro whole b same
    have regions : b.regions = mapped.regions := congrArg Prod.fst same
    have found' : b.find? a = some r := (find?_of_build same a).trans found
    exact agreesAt_of_base_le (regions ▸ orderly) (backed.of_build same) found' whole

theorem agrees_everywhere_iff :
    (∀ b : Bus n, b.build = mapped.build → ∀ a, (mapped.find? a).isSome → b.AgreesAt a) ↔
      ∀ r ∈ mapped.regions, align r.base = r.base := by
  constructor
  · intro agrees r hr
    have found := find?_base orderly hr
    have whole := (agreesAt_iff orderly backed found).mp fun b same => agrees b same r.base (by simp [found])
    exact (base_le_align_iff r.base).mp whole
  · intro words b same a hit
    obtain ⟨r, found⟩ := Option.isSome_iff_exists.mp hit
    obtain ⟨hr, spans⟩ := (find?_eq_some_iff orderly).mp found
    exact (agreesAt_iff orderly backed found).mpr (base_le_align_of_spans (words r hr) spans) b same

end

/-- A byte is in its word, whatever the memories hold, exactly where the region begins no later
    than the word. So it is everywhere exactly when every base is a word's address, and only
    from such a base is a device handed a word's offset. -/
theorem byte_in_word (devices : Vector Device n) (offers : List (Region n))
    (backed : (offers.foldl offer (ofDevices devices)).Backed) :
    let mapped := offers.foldl offer (ofDevices devices)
    (∀ a r, mapped.find? a = some r →
      ((∀ b : Bus n, b.build = mapped.build → b.AgreesAt a) ↔ r.base ≤ align a)) ∧
      ((∀ b : Bus n, b.build = mapped.build → ∀ a, (mapped.find? a).isSome → b.AgreesAt a) ↔
        ∀ r ∈ mapped.regions, align r.base = r.base) ∧
      ∀ a r, mapped.find? (align a) = some r →
        (∀ b : Bus n, b.build = mapped.build → b.HandsOver a r.device (align a - r.base)) ∧
          (align (align a - r.base) = align a - r.base ↔ align r.base = r.base) := by
  intro mapped
  have orderly : Orderly mapped.regions := (offered orderly_nil offers).1
  refine ⟨fun a r found => agreesAt_iff orderly backed found, agrees_everywhere_iff orderly backed,
    fun a r found => ⟨fun b same => ?_, align_sub_base_iff a r.base⟩⟩
  exact b.handsOver_of_find? ((find?_of_build same _).trans found)

/-- The first two bytes behind one region, eight from the third on behind another. -/
def split (devices : Vector Device n) (lo hi : Fin n) : Bus n :=
  [⟨0, 2, lo⟩, ⟨2, 8, hi⟩].foldl offer (ofDevices devices)

def halves : Vector Device 2 := #v[.memory (.empty "lo" 2 true), .memory (.empty "hi" 8 true)]

theorem backed_halves : (split halves 0 1).Backed := by
  have regions : (split halves 0 1).regions = [⟨0, 2, 0⟩, ⟨2, 8, 1⟩] := by decide
  intro r hr
  rw [regions] at hr
  rcases List.mem_cons.mp hr with rfl | hr
  · exact ⟨_, rfl, by decide⟩
  · cases List.mem_singleton.mp hr
    exact ⟨_, rfl, by decide⟩

/-- From the second word on the bytes are in their words, whatever the memories hold. -/
theorem byte_in_word_split :
    let mapped := split halves 0 1
    mapped.Backed ∧ mapped.find? 6 = some ⟨2, 8, 1⟩ ∧ (∀ b : Bus 2, b.build = mapped.build → b.AgreesAt 6) ∧
      mapped.find? 3 = some ⟨2, 8, 1⟩ ∧ ¬∀ b : Bus 2, b.build = mapped.build → b.AgreesAt 3 := by
  intro mapped
  have second : mapped.find? 6 = some ⟨2, 8, 1⟩ := by decide
  have first : mapped.find? 3 = some ⟨2, 8, 1⟩ := by decide
  obtain ⟨agrees, -, -⟩ := byte_in_word halves [⟨0, 2, 0⟩, ⟨2, 8, 1⟩] backed_halves
  refine ⟨backed_halves, second, (agrees 6 _ second).mpr (by decide), first, fun all => ?_⟩
  exact absurd ((agrees 3 _ first).mp all) (by decide)

/-- The bytes 1 to 4 from 0 up: the third is read as 3 and as 0, and the second word is asked
    for at offset 2. -/
theorem byte_in_word_torn :
    let mapped := split halves 0 1
    let b := mapped.loadBytes 0 [1, 2, 3, 4]
    mapped.Backed ∧ b.find? 2 = some ⟨2, 8, 1⟩ ∧ (b.readByte 2).1 = 3 ∧ (b.read 2).1 = 0x201 ∧ b.peek 2 = 0x201 ∧
      ¬b.AgreesAt 2 ∧ b.HandsOver 4 1 2 ∧ align 2 ≠ 2 := by
  intro mapped b
  have found : b.find? (align 4) = some ⟨2, 8, 1⟩ := by decide +kernel
  refine ⟨backed_halves, by decide +kernel, by decide +kernel, by decide +kernel, by decide +kernel, fun agrees => ?_,
    b.handsOver_of_find? found, by decide⟩
  exact absurd agrees.peek (by decide +kernel)

end Bus

end FiveStageArm
