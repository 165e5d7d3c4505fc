/-
  FiveStageArm.Proofs.Bus.Mapping — how a memory map grows. Regions are offered to a bus
  that starts with none, in any order and any number; each is accepted or refused.

  The machine compares endpoints of 32 bits, which wrap. In whole numbers a region is the
  addresses it spans (`Region.Spans`), and it fits when its last address is no higher than
  the highest there is (`Region.Fits`).

  Proved:
  - `map_eq_ok_iff`: on an orderly bus a region is accepted exactly when it fits and spans no
    address of a region held, and it is inserted in order.
  - `find?_eq_some_iff`: on an orderly bus an address is found in the one region that spans
    it, wherever that stands in the list.
  - `memory_map_orderly`: both after any attempts, with the regions held those accepted.
-/

import FiveStageArm.Bus.Basic
import Mathlib.Data.List.Pairwise

namespace FiveStageArm

/-! ## Regions in whole numbers -/

namespace Region

variable {n : Nat} {r s : Region n}

/-- Some address, and none above the highest. -/
def Fits (r : Region n) : Prop := r.size ≠ 0 ∧ r.base.toNat + r.size.toNat - 1 ≤ 0xFFFFFFFF

def Spans (r : Region n) (a : Address) : Prop :=
  r.base.toNat ≤ a.toNat ∧ a.toNat < r.base.toNat + r.size.toNat

def Apart (r s : Region n) : Prop := ∀ a, ¬(r.Spans a ∧ s.Spans a)

theorem size_pos (h : r.size ≠ 0) : 0 < r.size.toNat := by
  have : r.size.toNat ≠ 0 := fun e => h (UInt32.toNat_inj.mp e)
  omega

/-- The last address as the machine computes it. -/
theorem toNat_last_of_nonempty (h : r.size ≠ 0) :
    r.last.toNat = (r.base.toNat + (r.size.toNat - 1)) % 0x100000000 := by
  have pos := size_pos h
  have one : (1 : Word).toNat = 1 := rfl
  have le : (1 : Word) ≤ r.size := by
    rw [UInt32.le_iff_toNat_le, one]
    omega
  unfold last
  rw [UInt32.toNat_add, UInt32.toNat_sub_of_le _ _ le, one]

theorem toNat_last (h : r.Fits) : r.last.toNat = r.base.toNat + r.size.toNat - 1 := by
  obtain ⟨nonempty, bound⟩ := h
  have pos := size_pos nonempty
  rw [toNat_last_of_nonempty nonempty]
  omega

theorem base_le_last (h : r.Fits) : r.base ≤ r.last := by
  have pos := size_pos h.1
  rw [UInt32.le_iff_toNat_le, toNat_last h]
  omega

/-- The end wraps below the base exactly when the region does not fit. -/
theorem last_lt_base_iff (h : r.size ≠ 0) : r.last < r.base ↔ ¬r.Fits := by
  constructor
  · intro wraps fits
    have le := base_le_last fits
    rw [UInt32.le_iff_toNat_le] at le
    rw [UInt32.lt_iff_toNat_lt] at wraps
    omega
  · intro unfit
    have large : ¬r.base.toNat + r.size.toNat - 1 ≤ 0xFFFFFFFF := fun bound => unfit ⟨h, bound⟩
    have := r.base.toNat_lt
    have := r.size.toNat_lt
    rw [UInt32.lt_iff_toNat_lt, toNat_last_of_nonempty h]
    omega

theorem contains_iff (h : r.Fits) (a : Address) : r.contains a ↔ r.Spans a := by
  have pos := size_pos h.1
  simp only [contains, Spans, Bool.and_eq_true, decide_eq_true_eq, UInt32.le_iff_toNat_le, toNat_last h]
  omega

/-- Of two regions that fit, one spans the other's base if they share any address. -/
theorem overlaps_eq_false_iff (hr : r.Fits) (hs : s.Fits) : r.overlaps s = false ↔ r.Apart s := by
  have posR := size_pos hr.1
  have posS := size_pos hs.1
  have bases : r.overlaps s ↔
      r.base.toNat < s.base.toNat + s.size.toNat ∧ s.base.toNat < r.base.toNat + r.size.toNat := by
    simp only [overlaps, Bool.and_eq_true, decide_eq_true_eq, UInt32.le_iff_toNat_le, toNat_last hr, toNat_last hs]
    omega
  rw [← Bool.not_eq_true, bases]
  constructor
  · rintro clear a ⟨⟨lowR, highR⟩, ⟨lowS, highS⟩⟩
    exact clear ⟨by omega, by omega⟩
  · rintro apart ⟨rBelow, sBelow⟩
    rcases Nat.le_total r.base.toNat s.base.toNat with h | h
    · exact apart s.base ⟨⟨h, sBelow⟩, ⟨Nat.le_refl _, by omega⟩⟩
    · exact apart r.base ⟨⟨Nat.le_refl _, by omega⟩, ⟨h, rBelow⟩⟩

end Region

/-! ## Regions in order -/

namespace Bus

variable {n : Nat}

theorem perm_insertRegion (r : Region n) (l : List (Region n)) : (insertRegion r l).Perm (r :: l) := by
  induction l with
  | nil => exact .refl _
  | cons s l ih =>
    unfold insertRegion
    split
    · exact .refl _
    · exact (ih.cons s).trans (.swap r s l)

/-- Regions that fit, each ending below the next one's base. -/
structure Orderly (l : List (Region n)) : Prop where
  fits : ∀ r ∈ l, r.Fits
  sorted : l.Pairwise fun r s => r.last < s.base

theorem orderly_nil : Orderly ([] : List (Region n)) := ⟨fun _ h => (List.not_mem_nil h).elim, .nil⟩

namespace Orderly

variable {l : List (Region n)} {r s : Region n} (h : Orderly l)

include h

theorem insert (fits : r.Fits) (apart : ∀ s ∈ l, r.overlaps s = false) : Orderly (insertRegion r l) := by
  refine ⟨fun s hs => ?_, ?_⟩
  · rcases List.mem_cons.mp ((perm_insertRegion r l).mem_iff.mp hs) with rfl | hs
    · exact fits
    · exact h.fits s hs
  have le := Region.base_le_last fits
  induction l with
  | nil => exact List.pairwise_singleton _ r
  | cons s l ih =>
    obtain ⟨first, rest⟩ := List.pairwise_cons.mp h.sorted
    have leS := Region.base_le_last (h.fits s List.mem_cons_self)
    have clear : ¬(r.base ≤ s.last ∧ s.base ≤ r.last) := by
      simpa [Region.overlaps] using apart s List.mem_cons_self
    have below (t : Region n) (ht : t ∈ l) : s.last.toNat < t.base.toNat := UInt32.lt_iff_toNat_lt.mp (first t ht)
    rw [UInt32.le_iff_toNat_le] at le leS
    rw [UInt32.le_iff_toNat_le, UInt32.le_iff_toNat_le] at clear
    unfold insertRegion
    split
    · rename_i before
      rw [UInt32.lt_iff_toNat_lt] at before
      refine List.pairwise_cons.mpr ⟨fun t ht => ?_, h.sorted⟩
      rcases List.mem_cons.mp ht with rfl | ht
      · exact UInt32.lt_iff_toNat_lt.mpr (by omega)
      · have := below t ht
        exact UInt32.lt_iff_toNat_lt.mpr (by omega)
    · rename_i after
      rw [UInt32.lt_iff_toNat_lt] at after
      have tail : Orderly l := ⟨fun t ht => h.fits t (List.mem_cons_of_mem s ht), rest⟩
      refine List.pairwise_cons.mpr ⟨fun t ht => ?_, ih tail fun t ht => apart t (List.mem_cons_of_mem s ht)⟩
      rcases List.mem_cons.mp ((perm_insertRegion r l).mem_iff.mp ht) with rfl | ht
      · exact UInt32.lt_iff_toNat_lt.mpr (by omega)
      · exact first t ht

omit h in
theorem not_contains_of_below (below : r.last < s.base) {a : Address} (ha : s.contains a) : r.contains a = false := by
  simp only [Region.contains, Bool.and_eq_true, decide_eq_true_eq, UInt32.le_iff_toNat_le] at ha
  simp only [UInt32.lt_iff_toNat_lt] at below
  simp only [Region.contains, Bool.and_eq_false_iff, decide_eq_false_iff_not, UInt32.le_iff_toNat_le]
  omega

theorem find?_contains (a : Address) : l.find? (·.contains a) = some r ↔ r ∈ l ∧ r.contains a := by
  induction l with
  | nil => simp
  | cons s l ih =>
    obtain ⟨first, rest⟩ := List.pairwise_cons.mp h.sorted
    have tail : Orderly l := ⟨fun t ht => h.fits t (List.mem_cons_of_mem s ht), rest⟩
    rw [List.find?_cons]
    cases hs : s.contains a with
    | true =>
      constructor
      · rintro ⟨rfl⟩
        exact ⟨List.mem_cons_self, hs⟩
      · rintro ⟨hr, ha⟩
        rcases List.mem_cons.mp hr with rfl | hr
        · rfl
        · rw [not_contains_of_below (first r hr) ha] at hs
          cases hs
    | false =>
      show l.find? _ = some r ↔ _
      rw [ih tail]
      constructor
      · rintro ⟨hr, ha⟩
        exact ⟨List.mem_cons_of_mem s hr, ha⟩
      · rintro ⟨hr, ha⟩
        rcases List.mem_cons.mp hr with rfl | hr
        · rw [hs] at ha
          cases ha
        · exact ⟨hr, ha⟩

end Orderly

/-! ## Mapping -/

theorem find?_eq_some_iff {b : Bus n} (h : Orderly b.regions) {a : Address} {r : Region n} :
    b.find? a = some r ↔ r ∈ b.regions ∧ r.Spans a := by
  unfold find?
  rw [h.find?_contains]
  constructor
  · rintro ⟨hr, ha⟩
    exact ⟨hr, (Region.contains_iff (h.fits r hr) a).mp ha⟩
  · rintro ⟨hr, ha⟩
    exact ⟨hr, (Region.contains_iff (h.fits r hr) a).mpr ha⟩

/-- An orderly bus accepts what fits beside the regions it holds, and inserts it in order. -/
theorem map_eq_ok_iff {b b' : Bus n} (h : Orderly b.regions) {r : Region n} :
    b.map r.base r.size r.device = .ok b' ↔
      (r.Fits ∧ ∀ s ∈ b.regions, r.Apart s) ∧ b' = { b with regions := insertRegion r b.regions } := by
  unfold map
  simp only []
  split
  · rename_i empty
    constructor
    · intro e
      cases e
    · rintro ⟨⟨fits, -⟩, -⟩
      exact absurd empty fits.1
  rename_i nonempty
  split
  · rename_i wraps
    constructor
    · intro e
      cases e
    · rintro ⟨⟨fits, -⟩, -⟩
      exact absurd fits ((Region.last_lt_base_iff nonempty).mp wraps)
  rename_i whole
  have fits : r.Fits := Classical.not_not.mp fun unfit => whole ((Region.last_lt_base_iff nonempty).mpr unfit)
  split
  · rename_i s found
    have hs := List.mem_of_find?_eq_some found
    have overlaps : r.overlaps s := List.find?_some found
    constructor
    · intro e
      cases e
    · rintro ⟨⟨-, apart⟩, -⟩
      rw [(Region.overlaps_eq_false_iff fits (h.fits s hs)).mpr (apart s hs)] at overlaps
      cases overlaps
  · rename_i clear
    have apart (s : Region n) (hs : s ∈ b.regions) : r.Apart s := by
      have none := List.find?_eq_none.mp clear s hs
      exact (Region.overlaps_eq_false_iff fits (h.fits s hs)).mp (Bool.not_eq_true _ ▸ none)
    constructor
    · intro e
      cases e
      exact ⟨⟨fits, apart⟩, rfl⟩
    · rintro ⟨-, rfl⟩
      rfl

/-! ### Any attempts -/

/-- The bus after a region is offered; a refusal leaves it alone. -/
def offer (b : Bus n) (r : Region n) : Bus n :=
  match b.map r.base r.size r.device with
  | .ok b' => b'
  | .error _ => b

/-- The regions accepted of those offered one after the other. -/
def accepted (b : Bus n) : List (Region n) → List (Region n)
  | [] => []
  | r :: rs =>
    match b.map r.base r.size r.device with
    | .ok b' => r :: b'.accepted rs
    | .error _ => b.accepted rs

theorem offered {b : Bus n} (h : Orderly b.regions) (rs : List (Region n)) :
    Orderly (rs.foldl offer b).regions ∧ (rs.foldl offer b).regions.Perm (b.accepted rs ++ b.regions) ∧
      rs.foldl offer b = { b with regions := (rs.foldl offer b).regions } := by
  induction rs generalizing b with
  | nil => exact ⟨h, .refl _, rfl⟩
  | cons r rs ih =>
    rw [List.foldl_cons, accepted, offer]
    cases e : b.map r.base r.size r.device with
    | error fault => exact ih h
    | ok b' =>
      obtain ⟨⟨fits, apart⟩, rfl⟩ := (map_eq_ok_iff h).mp e
      have clear (s : Region n) (hs : s ∈ b.regions) : r.overlaps s = false :=
        (Region.overlaps_eq_false_iff fits (h.fits s hs)).mpr (apart s hs)
      obtain ⟨orderly, perm, rest⟩ := ih (b := { b with regions := insertRegion r b.regions }) (h.insert fits clear)
      refine ⟨orderly, perm.trans ?_, rest⟩
      exact ((perm_insertRegion r b.regions).append_left _).trans List.perm_middle

/-- What is true of a bus `b` that starts as `start` and then has accepted `held`. -/
structure OrderlyMap (start b : Bus n) (held : List (Region n)) : Prop where
  regionsOnly : b = { start with regions := b.regions }
  regions : b.regions.Perm held
  whole : ∀ r ∈ b.regions, r.base ≤ r.last
  sorted : b.regions.Pairwise fun r s => r.base < s.base ∧ r.last < s.base
  accepts : ∀ r : Region n, (∃ b', b.map r.base r.size r.device = .ok b') ↔ r.Fits ∧ ∀ s ∈ held, r.Apart s
  refuses : ∀ (r : Region n) e, b.map r.base r.size r.device = .error e → b.offer r = b
  found : ∀ a r, b.find? a = some r ↔ r ∈ held ∧ r.Spans a
  anyOrder : ∀ others, (start.accepted others).Perm held → ∀ a, (others.foldl offer start).find? a = b.find? a

/-- Whatever regions are offered and in whatever order, the map is in order, a further region
    is accepted exactly when it fits beside those held, and an address is found in the region
    that spans it. -/
theorem memory_map_orderly (devices : Vector Device n) (offers : List (Region n)) :
    let start := ofDevices devices
    OrderlyMap start (offers.foldl offer start) (start.accepted offers) := by
  intro start
  have grown (rs : List (Region n)) := offered (b := start) orderly_nil rs
  have members (rs : List (Region n)) (r : Region n) : r ∈ (rs.foldl offer start).regions ↔ r ∈ start.accepted rs := by
    have perm := (grown rs).2.1
    rw [show start.regions = [] from rfl, List.append_nil] at perm
    exact perm.mem_iff
  have found (rs : List (Region n)) (a : Address) (r : Region n) :
      (rs.foldl offer start).find? a = some r ↔ r ∈ start.accepted rs ∧ r.Spans a := by
    rw [find?_eq_some_iff (grown rs).1, members]
  obtain ⟨orderly, perm, rest⟩ := grown offers
  rw [show start.regions = [] from rfl, List.append_nil] at perm
  constructor
  case regionsOnly => exact rest
  case regions => exact perm
  case whole => exact fun r hr => Region.base_le_last (orderly.fits r hr)
  case sorted =>
    refine orderly.sorted.imp_of_mem fun {r s} hr _ below => ⟨?_, below⟩
    exact UInt32.lt_of_le_of_lt (Region.base_le_last (orderly.fits r hr)) below
  case accepts =>
    intro r
    constructor
    · rintro ⟨b', ok⟩
      obtain ⟨⟨fits, apart⟩, -⟩ := (map_eq_ok_iff orderly).mp ok
      exact ⟨fits, fun s hs => apart s ((members offers s).mpr hs)⟩
    · rintro ⟨fits, apart⟩
      exact ⟨_, (map_eq_ok_iff orderly).mpr ⟨⟨fits, fun s hs => apart s ((members offers s).mp hs)⟩, rfl⟩⟩
  case refuses =>
    intro r e refused
    simp only [offer, refused]
  case found => exact found offers
  case anyOrder =>
    intro others same a
    refine Option.ext fun r => ?_
    rw [found others, found offers, same.mem_iff]

/-- Regions at both ends of the address space and one between, one region that overlaps, one
    that wraps by a byte and one that is empty. -/
def offers : List (Region 2) :=
  [⟨0xFFFFFF00, 0x100, 0⟩, ⟨0x1000, 0x1000, 1⟩, ⟨0x1FFF, 4, 0⟩, ⟨0xFFFFFFF0, 0x11, 1⟩, ⟨0, 0, 1⟩, ⟨0, 0x1000, 0⟩]

theorem memory_map_orderly_offers :
    let start : Bus 2 := ofDevices #v[.uart .idle, .gpio .idle]
    let held : List (Region 2) := [⟨0xFFFFFF00, 0x100, 0⟩, ⟨0x1000, 0x1000, 1⟩, ⟨0, 0x1000, 0⟩]
    let b := offers.foldl offer start
    start.accepted offers = held ∧ start.accepted held.reverse = held.reverse ∧
      b.find? 0xFFFFFFFF = some ⟨0xFFFFFF00, 0x100, 0⟩ ∧ (∃ b', b.map 0x2000 0x1000 1 = .ok b') ∧
      ∀ a, (held.reverse.foldl offer start).find? a = b.find? a := by
  intro start held b
  have accepted : start.accepted offers = held := by decide
  have reversed : start.accepted held.reverse = held.reverse := by decide
  have fits : Region.Fits (⟨0x2000, 0x1000, 1⟩ : Region 2) ∧ ∀ r ∈ held, r.Fits := by
    unfold Region.Fits
    decide
  have clear : ∀ r ∈ held, Region.overlaps ⟨0x2000, 0x1000, 1⟩ r = false := by decide
  have holds := memory_map_orderly #v[.uart .idle, .gpio .idle] offers
  refine ⟨accepted, reversed, (holds.found _ _).mpr ⟨?_, ?_⟩, (holds.accepts ⟨0x2000, 0x1000, 1⟩).mpr ⟨fits.1, ?_⟩,
    holds.anyOrder _ ?_⟩
  · exact accepted ▸ List.mem_cons_self
  · unfold Region.Spans
    decide
  · intro r hr
    have hr' : r ∈ held := accepted ▸ hr
    exact (Region.overlaps_eq_false_iff fits.1 (fits.2 r hr')).mp (clear r hr')
  · rw [reversed, accepted]
    exact held.reverse_perm

end Bus

end FiveStageArm
