/-
  FiveStageArm.Proofs.Text.Spelling — which characters spell a number: at least one digit,
  either case of those above 9, zeros in front allowed, the number being what the digits
  stand for by their places.

  Proved: a text without blanks and without a sign is read to its end exactly when it is a
  number so spelled, once the radix has been settled (`read?_unsigned`). A hexadecimal text
  may have its mark in front (`spells_resolve`).
-/

import FiveStageArm.Text
import Mathlib.Data.List.Forall2
import Mathlib.Data.Nat.Digits.Defs
import Mathlib.Tactic.Ring

namespace FiveStageArm.Text

/-- The character is the digit `d` of a radix, in either case. -/
def IsDigit (radix : Nat) (c : Char) (d : Nat) : Prop := d < radix ∧ c.toLower = Nat.digitChar d

/-- The characters are the digits of `n`, the first of them the most significant. -/
def Spells (radix : Nat) (cs : List Char) (n : Nat) : Prop :=
  cs ≠ [] ∧ ∃ ds, List.Forall₂ (IsDigit radix) cs ds ∧ n = Nat.ofDigits radix ds.reverse

/-- The letter of a hexadecimal mark. -/
def IsHexMark (c : Char) : Prop := c = 'x' ∨ c = 'X'

instance (c : Char) : Decidable (IsHexMark c) := inferInstanceAs (Decidable (_ ∨ _))

/-! ## Digits -/

/-- A digit of a small radix is a hexadecimal digit that is small enough. -/
theorem digit?_of_le {radix : Nat} (small : radix ≤ 16) (c : Char) (d : Nat) :
    digit? radix c = some d ↔ d < radix ∧ digit? 16 c = some d := by
  simp only [digit?]
  split
  · grind
  split
  · grind
  split
  · grind
  · grind

theorem digit?_sixteen (c : Char) (d : Nat) : digit? 16 c = some d ↔ d < 16 ∧ c.toLower = Nat.digitChar d := by
  by_cases ascii : c.toNat < 128
  · have table : ∀ k : Fin 128, ∀ d : Fin 16,
        digit? 16 (Char.ofNat k) = some d.val ↔ (Char.ofNat k).toLower = Nat.digitChar d := by
      decide +kernel
    have row := table ⟨c.toNat, ascii⟩
    rw [Char.ofNat_toNat] at row
    constructor
    · intro h
      have small : d < 16 := ((digit?_of_le (Nat.le_refl 16) c d).mp h).1
      exact ⟨small, (row ⟨d, small⟩).mp h⟩
    · rintro ⟨small, h⟩
      exact (row ⟨d, small⟩).mpr h
  · -- past the letters there are no digits and no cases
    have above (x : Char) (hx : x.toNat < 128) : ¬c ≤ x := by
      intro hc
      have : c.toNat ≤ x.toNat := hc
      omega
    have none : digit? 16 c = none := by
      simp [digit?, above '9' (by decide), above 'f' (by decide), above 'F' (by decide)]
    have same : c.toLower = c := dif_neg fun h => above 'Z' (by decide) h.2
    have low : ∀ d < 16, (Nat.digitChar d).toNat < 128 := by decide
    rw [none, same]
    constructor
    · intro h
      cases h
    · rintro ⟨small, rfl⟩
      have := low d small
      omega

theorem digit?_eq_some_iff {radix : Nat} (small : radix ≤ 16) (c : Char) (d : Nat) :
    digit? radix c = some d ↔ IsDigit radix c d := by
  rw [digit?_of_le small, digit?_sixteen, IsDigit]
  grind

theorem unbroken_of_all {cs : List Char} (h : cs.all (!isBlank ·)) : ∀ c ∈ cs, isBlank c = false := by
  simpa using h

/-- No digit is a blank. -/
theorem IsDigit.unbroken {radix d : Nat} {c : Char} (h : IsDigit radix c d) (small : radix ≤ 16) : isBlank c = false := by
  have read := (digit?_eq_some_iff small c d).mpr h
  cases blank : isBlank c with
  | false => rfl
  | true =>
    have low : c.toNat ≤ 32 := by
      rcases (by simpa [isBlank] using blank : c = ' ' ∨ '\t' ≤ c ∧ c ≤ '\r') with rfl | ⟨-, last⟩
      · decide
      · exact Nat.le_trans (show c.toNat ≤ '\r'.toNat from last) (by decide)
    have below (x : Char) (hx : 32 < x.toNat) : ¬x ≤ c := by
      intro hc
      have : x.toNat ≤ c.toNat := hc
      omega
    simp [digit?, below '0' (by decide), below 'a' (by decide), below 'A' (by decide)] at read

/-! ## Numbers -/

theorem readDigits_eq_iff {radix : Nat} (small : radix ≤ 16) (acc n : Nat) (cs : List Char) :
    readDigits radix acc cs = (n, []) ↔
      ∃ ds, List.Forall₂ (IsDigit radix) cs ds ∧ n = acc * radix ^ cs.length + Nat.ofDigits radix ds.reverse := by
  induction cs generalizing acc with
  | nil => simp [readDigits, List.forall₂_nil_left_iff, eq_comm]
  | cons c cs ih =>
    simp only [readDigits, List.forall₂_cons_left_iff, ← digit?_eq_some_iff small]
    cases digit? radix c with
    | none => simp
    | some d =>
      -- the digit counts as many places as there are digits after it
      have place (ds : List Nat) (h : List.Forall₂ (IsDigit radix) cs ds) :
          acc * radix ^ (cs.length + 1) + Nat.ofDigits radix (d :: ds).reverse =
            (acc * radix + d) * radix ^ cs.length + Nat.ofDigits radix ds.reverse := by
        rw [List.reverse_cons, Nat.ofDigits_append, Nat.ofDigits_singleton, List.length_reverse, h.length_eq]
        ring
      simp only [ih, List.length_cons]
      constructor
      · rintro ⟨ds, h, rfl⟩
        exact ⟨d :: ds, ⟨d, ds, rfl, h, rfl⟩, (place ds h).symm⟩
      · rintro ⟨_, ⟨_, ds, ⟨⟩, h, rfl⟩, rfl⟩
        exact ⟨ds, h, place ds h⟩

theorem Spells.head {radix n : Nat} {c : Char} {cs : List Char} (h : Spells radix (c :: cs) n) :
    ∃ d, IsDigit radix c d := by
  obtain ⟨-, ds, digits, -⟩ := h
  cases digits with
  | cons digit _ => exact ⟨_, digit⟩

theorem Spells.unbroken {radix n : Nat} {cs : List Char} (h : Spells radix cs n) (small : radix ≤ 16) :
    ∀ c ∈ cs, isBlank c = false := by
  obtain ⟨-, ds, digits, -⟩ := h
  induction digits with
  | nil => simp
  | cons digit _ ih => exact List.forall_mem_cons.mpr ⟨digit.unbroken small, ih⟩

theorem spells_iff {radix : Nat} (small : radix ≤ 16) (c : Char) (cs : List Char) (n : Nat) :
    Spells radix (c :: cs) n ↔ (digit? radix c).isSome ∧ readDigits radix 0 (c :: cs) = (n, []) := by
  simp only [readDigits_eq_iff small, Nat.zero_mul, Nat.zero_add]
  constructor
  · intro h
    obtain ⟨d, digit⟩ := h.head
    rw [(digit?_eq_some_iff small c d).mpr digit]
    exact ⟨rfl, h.2⟩
  · rintro ⟨-, h⟩
    exact ⟨List.cons_ne_nil c cs, h⟩

/-- The numeral at the front of a text that starts with neither a blank nor a sign. -/
theorem read?_eq {cs : List Char} (blank : ∀ c ∈ cs.head?, isBlank c = false)
    (plain : ∀ c ∈ cs.head?, c ≠ '-' ∧ c ≠ '+') (r : Radix) :
    Numeral.read? r cs = match (r.resolve cs).2 with
      | [] => none
      | c :: _ =>
        if (digit? (r.resolve cs).1 c).isNone then none
        else some ⟨false, (readDigits (r.resolve cs).1 0 (r.resolve cs).2).1,
          (readDigits (r.resolve cs).1 0 (r.resolve cs).2).2⟩ := by
  cases cs with
  | nil => rfl
  | cons c cs =>
    obtain ⟨minus, plus⟩ := plain c rfl
    have body : (c :: cs).dropWhile isBlank = c :: cs := List.dropWhile_cons_of_neg (by simp [blank c rfl])
    cases digits : (r.resolve (c :: cs)).2 with
    | nil => simp [Numeral.read?, body, minus, plus, digits]
    | cons d ds => simp [Numeral.read?, body, minus, plus, digits]

theorem Radix.resolve_le (r : Radix) (cs : List Char) : (r.resolve cs).1 ≤ 16 := by
  unfold resolve
  repeat' split
  all_goals simp

theorem read?_unsigned {cs : List Char} (blank : ∀ c ∈ cs.head?, isBlank c = false)
    (plain : ∀ c ∈ cs.head?, c ≠ '-' ∧ c ≠ '+') (r : Radix) (n : Nat) :
    (∃ u, Numeral.read? r cs = some u ∧ u.rest = [] ∧ u.magnitude = n) ↔
      Spells (r.resolve cs).1 (r.resolve cs).2 n := by
  have small := r.resolve_le cs
  rw [read?_eq blank plain]
  generalize r.resolve cs = resolved at small ⊢
  obtain ⟨radix, digits⟩ := resolved
  cases digits with
  | nil => simp [Spells]
  | cons c ds =>
    simp only [spells_iff small]
    cases digit? radix c with
    | none => simp
    | some d => simp [Prod.ext_iff, and_comm]

/-- A sign is no digit. -/
theorem not_spells_signed {c : Char} (sign : c = '-' ∨ c = '+') (cs : List Char) (r : Radix) (n : Nat) :
    ¬Spells (r.resolve (c :: cs)).1 (r.resolve (c :: cs)).2 n := by
  have kept : (r.resolve (c :: cs)).2 = c :: cs := by rcases sign with rfl | rfl <;> cases r <;> rfl
  have none (radix : Nat) : digit? radix c = none := by rcases sign with rfl | rfl <;> simp [digit?]
  rw [kept, spells_iff (r.resolve_le _), none]
  rintro ⟨⟨⟩, -⟩

/-! ## Marks -/

theorem afterHexMark?_eq_some_iff {cs ds : List Char} : afterHexMark? cs = some ds ↔
    ∃ x, IsHexMark x ∧ cs = '0' :: x :: ds ∧ ∃ d ∈ ds.head?, (digit? 16 d).isSome := by
  unfold afterHexMark?
  split
  · rename_i x d es
    by_cases marked : (x = 'x' ∨ x = 'X') ∧ (digit? 16 d).isSome
    · rw [if_pos marked]
      constructor
      · rintro ⟨⟩
        exact ⟨x, marked.1, rfl, d, rfl, marked.2⟩
      · rintro ⟨_, -, ⟨⟩, -⟩
        rfl
    · rw [if_neg marked]
      constructor
      · intro h
        cases h
      · rintro ⟨_, hx, ⟨⟩, _, ⟨⟩, hd⟩
        exact absurd ⟨hx, hd⟩ marked
  · rename_i short
    constructor
    · intro h
      cases h
    · rintro ⟨x, -, rfl, d, hd, -⟩
      obtain ⟨es, rfl⟩ := List.head?_eq_some_iff.mp hd
      exact absurd rfl (short x d es)

/-- The letter of a mark is no digit. -/
theorem not_spells_marked {radix : Nat} (small : radix ≤ 16) {x : Char} (hx : IsHexMark x) (ds : List Char) (n : Nat) :
    ¬Spells radix ('0' :: x :: ds) n := by
  rintro ⟨-, _, digits, -⟩
  rcases digits with _ | ⟨-, _ | ⟨⟨below, digit⟩, -⟩⟩
  have table : ∀ d < 16, Char.toLower 'x' ≠ Nat.digitChar d ∧ Char.toLower 'X' ≠ Nat.digitChar d := by decide
  have none := table _ (Nat.lt_of_lt_of_le below small)
  rcases hx with rfl | rfl
  · exact none.1 digit
  · exact none.2 digit

theorem spells_resolve (cs : List Char) (n : Nat) :
    Spells 16 (Radix.hexadecimal.resolve cs).2 n ↔
      Spells 16 cs n ∨ ∃ x ds, IsHexMark x ∧ cs = '0' :: x :: ds ∧ Spells 16 ds n := by
  show Spells 16 ((afterHexMark? cs).getD cs) n ↔ _
  cases h : afterHexMark? cs with
  | none =>
    constructor
    · exact Or.inl
    · rintro (spelled | ⟨x, ds, hx, rfl, spelled⟩)
      · exact spelled
      · cases ds with
        | nil => exact absurd rfl spelled.1
        | cons d es =>
          have marked : afterHexMark? ('0' :: x :: d :: es) = some (d :: es) := afterHexMark?_eq_some_iff.mpr
            ⟨x, hx, rfl, d, rfl, ((spells_iff (Nat.le_refl 16) d es n).mp spelled).1⟩
          rw [h] at marked
          cases marked
  | some ds =>
    obtain ⟨x, hx, rfl, -⟩ := afterHexMark?_eq_some_iff.mp h
    constructor
    · exact fun spelled => Or.inr ⟨x, ds, hx, rfl, spelled⟩
    · rintro (spelled | ⟨_, _, -, ⟨⟩, spelled⟩)
      · exact absurd spelled (not_spells_marked (Nat.le_refl 16) hx ds n)
      · exact spelled

end FiveStageArm.Text
