/-
  FiveStageArm.Proofs.Shell.Numbers — the numbers a shell line may hold: decimal digits, or
  hexadecimal digits behind a mark, up to the largest word (`Written`).

  The mark is taken off before the digits are read, and reading hexadecimal digits takes one
  off as well. So a number may be marked twice (`TwiceMarked`), which no form of it provides
  for.

  Proved: a word without blanks is read as a number exactly when it is one of these two,
  and as that number (`parseNumber_reads`). A number marked twice is not one as it should be
  written, yet it is read (`parseNumber_twiceMarked`).
-/

import FiveStageArm.Proofs.Text.Spelling
import FiveStageArm.Shell.Command

namespace FiveStageArm.Shell

open Text (Spells IsHexMark)

/-- A number as it is written: in decimal, or in hexadecimal behind `0x` or `0X`. -/
inductive Written : List Char → Nat → Prop
  | decimal {cs : List Char} {n : Nat} (digits : Spells 10 cs n) : Written cs n
  | hexadecimal {x : Char} {cs : List Char} {n : Nat} (mark : IsHexMark x) (digits : Spells 16 cs n) :
      Written ('0' :: x :: cs) n

/-- A hexadecimal number behind two marks. -/
inductive TwiceMarked : List Char → Nat → Prop
  | intro {x y : Char} {cs : List Char} {n : Nat} (first : IsHexMark x) (second : IsHexMark y)
      (digits : Spells 16 cs n) : TwiceMarked ('0' :: x :: '0' :: y :: cs) n

theorem Written.unbroken {cs : List Char} {n : Nat} (h : Written cs n) : ∀ c ∈ cs, Text.isBlank c = false := by
  rcases h with digits | ⟨mark, digits⟩
  · exact digits.unbroken (by decide)
  · have letter : ∀ x, IsHexMark x → Text.isBlank x = false := by
      rintro _ (rfl | rfl) <;> decide
    simpa [letter _ mark, show Text.isBlank '0' = false by decide] using digits.unbroken (Nat.le_refl 16)

/-! ## The parts of a word -/

/-- The radix a word names, and what is behind its mark. -/
def markOff : List Char → Text.Radix × List Char
  | '0' :: x :: d :: ds => if IsHexMark x then (.hexadecimal, d :: ds) else (.decimal, '0' :: x :: d :: ds)
  | cs => (.decimal, cs)

/-- The word that an unsigned text is to its end. -/
def readWord (radix : Text.Radix) (digits : List Char) : Option Word :=
  match digits with
  | '-' :: _ => none
  | '+' :: _ => none
  | _ =>
    match Text.Numeral.read? radix digits with
    | some n => if n.rest.isEmpty && n.magnitude < two32 then some (UInt32.ofNat n.magnitude) else none
    | none => none

theorem parseNumber_eq (s : String) : parseNumber s = readWord (markOff s.toList).1 (markOff s.toList).2 := rfl

theorem readWord_eq_some_iff {cs : List Char} (blank : ∀ c ∈ cs.head?, Text.isBlank c = false) (radix : Text.Radix)
    (n : Nat) :
    (readWord radix cs).map UInt32.toNat = some n ↔ n < two32 ∧ Spells (radix.resolve cs).1 (radix.resolve cs).2 n := by
  unfold readWord
  split
  · simp [Text.not_spells_signed (Or.inl rfl)]
  · simp [Text.not_spells_signed (Or.inr rfl)]
  · rename_i minus plus
    have plain : ∀ c ∈ cs.head?, c ≠ '-' ∧ c ≠ '+' := by
      intro c hc
      obtain ⟨es, rfl⟩ := List.head?_eq_some_iff.mp hc
      exact ⟨fun e => minus es (e ▸ rfl), fun e => plus es (e ▸ rfl)⟩
    rw [← Text.read?_unsigned blank plain radix n]
    cases Text.Numeral.read? radix cs with
    | none => simp
    | some u =>
      have back (h : u.magnitude < two32) : (UInt32.ofNat u.magnitude).toNat = u.magnitude :=
        UInt32.toNat_ofNat_of_lt' h
      simp only [List.isEmpty_iff, Bool.and_eq_true, decide_eq_true_eq]
      constructor
      · split
        · rename_i fits
          rintro ⟨⟩
          rw [back fits.2]
          exact ⟨fits.2, u, rfl, fits.1, rfl⟩
        · intro h
          cases h
      · rintro ⟨below, _, ⟨⟩, rest, rfl⟩
        rw [if_pos ⟨rest, below⟩]
        exact congrArg some (back below)

/-! ## The forms of a number -/

theorem written_marked {x : Char} (mark : IsHexMark x) (cs : List Char) (n : Nat) :
    Written ('0' :: x :: cs) n ↔ Spells 16 cs n := by
  constructor
  · rintro (digits | ⟨-, digits⟩)
    · exact absurd digits (Text.not_spells_marked (by decide) mark cs n)
    · exact digits
  · exact Written.hexadecimal mark

theorem twiceMarked_iff {x : Char} (mark : IsHexMark x) (cs : List Char) (n : Nat) :
    TwiceMarked ('0' :: x :: cs) n ↔ ∃ y ds, IsHexMark y ∧ cs = '0' :: y :: ds ∧ Spells 16 ds n := by
  constructor
  · rintro ⟨-, second, digits⟩
    exact ⟨_, _, second, rfl, digits⟩
  · rintro ⟨y, ds, second, rfl, digits⟩
    exact .intro mark second digits

/-- Behind a mark there is at least one digit. -/
theorem written_unmarked {cs : List Char} (plain : ∀ x d ds, cs = '0' :: x :: d :: ds → ¬IsHexMark x) (n : Nat) :
    Written cs n ∨ TwiceMarked cs n ↔ Spells 10 cs n := by
  constructor
  · rintro ((digits | ⟨mark, digits⟩) | ⟨first, -, -⟩)
    · exact digits
    · rename_i ds
      cases ds with
      | nil => exact absurd rfl digits.1
      | cons d ds => exact absurd mark (plain _ d ds rfl)
    · exact absurd first (plain _ _ _ rfl)
  · exact fun digits => Or.inl (.decimal digits)

theorem markOff_cases (cs : List Char) :
    (∃ x d ds, IsHexMark x ∧ cs = '0' :: x :: d :: ds ∧ markOff cs = (.hexadecimal, d :: ds)) ∨
      (∀ x d ds, cs = '0' :: x :: d :: ds → ¬IsHexMark x) ∧ markOff cs = (.decimal, cs) := by
  unfold markOff
  split
  · rename_i x d ds
    by_cases mark : IsHexMark x
    · rw [if_pos mark]
      exact Or.inl ⟨x, d, ds, mark, rfl, rfl⟩
    · rw [if_neg mark]
      refine Or.inr ⟨?_, rfl⟩
      rintro _ _ _ ⟨⟩
      exact mark
  · rename_i short
    exact Or.inr ⟨fun x d ds e => absurd e (short x d ds), rfl⟩

theorem parseNumber_eq_some_iff (s : String) (unbroken : ∀ c ∈ s.toList, Text.isBlank c = false) (n : Nat) :
    (parseNumber s).map UInt32.toNat = some n ↔ n < two32 ∧ (Written s.toList n ∨ TwiceMarked s.toList n) := by
  rw [parseNumber_eq]
  rcases markOff_cases s.toList with ⟨x, d, ds, mark, e, parts⟩ | ⟨plain, parts⟩
  · have blank : ∀ c ∈ (d :: ds).head?, Text.isBlank c = false := by
      rintro _ ⟨⟩
      exact unbroken d (by simp [e])
    rw [parts, readWord_eq_some_iff blank, e, written_marked mark, twiceMarked_iff mark, ← Text.spells_resolve]
    rfl
  · have blank : ∀ c ∈ s.toList.head?, Text.isBlank c = false :=
      fun c hc => unbroken c (List.mem_of_mem_head? hc)
    rw [parts, readWord_eq_some_iff blank, written_unmarked plain]
    rfl

/-- The numbers read are the decimal and the hexadecimal that fit a word, and those with a second
    mark behind the first. -/
theorem parseNumber_reads (s : String) (unbroken : ∀ c ∈ s.toList, Text.isBlank c = false) (n : Nat) :
    (parseNumber s).map UInt32.toNat = some n ↔ n ≤ 2 ^ 32 - 1 ∧ (Written s.toList n ∨ TwiceMarked s.toList n) := by
  have bound : n ≤ 2 ^ 32 - 1 ↔ n < two32 := by
    rw [two32]
    omega
  rw [bound]
  exact parseNumber_eq_some_iff s unbroken n

/-- The largest word, in both cases of its digits. -/
theorem parseNumber_reads_largest :
    (∀ c ∈ "0XffffFFFF".toList, Text.isBlank c = false) ∧
    (parseNumber "0XffffFFFF").map UInt32.toNat = some (2 ^ 32 - 1) := by
  have unbroken : ∀ c ∈ "0XffffFFFF".toList, Text.isBlank c = false := Text.unbroken_of_all (by decide)
  have digits : Spells 16 "ffffFFFF".toList (2 ^ 32 - 1) :=
    (Text.spells_iff (Nat.le_refl 16) _ _ _).mpr (by decide +kernel)
  exact ⟨unbroken, (parseNumber_reads _ unbroken _).mpr ⟨Nat.le_refl _, Or.inl (.hexadecimal (Or.inr rfl) digits)⟩⟩

/-- `0x0x5` is read as 5. -/
theorem parseNumber_twiceMarked : ¬∀ s : String, (∀ c ∈ s.toList, Text.isBlank c = false) → ∀ n : Nat,
    ((parseNumber s).map UInt32.toNat = some n ↔ n ≤ 2 ^ 32 - 1 ∧ Written s.toList n) := by
  intro documented
  have read : (parseNumber "0x0x5").map UInt32.toNat = some 5 := by decide +kernel
  have written : Written ('0' :: 'x' :: ['0', 'x', '5']) 5 :=
    ((documented "0x0x5" (Text.unbroken_of_all (by decide)) 5).mp read).2
  exact Text.not_spells_marked (Nat.le_refl 16) (Or.inl rfl) _ _ ((written_marked (Or.inl rfl) _ _).mp written)

end FiveStageArm.Shell
