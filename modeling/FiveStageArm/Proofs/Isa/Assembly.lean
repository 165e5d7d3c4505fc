/-
  FiveStageArm.Proofs.Isa.Assembly — what assembly text says about an instruction. The text is
  words set apart by blanks, commas and brackets, and no word holds one of these, so two
  texts that are the same are the same word by word. The first word begins with the three
  letters of an operation, or with a B; a condition has no letter or two, so a mark at the
  end shows in the length.

  Proved:
  - Every part of a text is written differently for different values: registers, conditions,
    shifts, offsets, second operands (`operand2_alike`) and mnemonics (`mnemonic_inj`).
  - The kind of an operation can be read off the first letters (`kindOf_text`).
  - So instructions at one address with the same text are alike (`alike_of_text`).
-/

import FiveStageArm.Proofs.Isa.Alike
import FiveStageArm.Proofs.Text.Numeral
import FiveStageArm.Isa.Decode
import Mathlib.Data.Bool.Basic
import Mathlib.Data.List.Nodup

namespace FiveStageArm

/-! ## Words -/

namespace Text

/-- What stands between two words. -/
def isBreak (c : Char) : Bool := c = ' ' || c = ',' || c = ']'

def initial (s : String) : Option Char := s.toList.head?

/-- One word, or part of one. -/
def Unbroken (s : String) : Prop := ∀ c ∈ s.toList, isBreak c = false

/-- Can follow a word: there is nothing, or a break first. -/
def Follows (s : String) : Prop := ∀ c ∈ initial s, isBreak c

instance (s : String) : Decidable (Unbroken s) := List.decidableBAll _ s.toList

instance (s : String) : Decidable (Follows s) :=
  decidable_of_iff ((initial s).all isBreak) (by cases h : initial s <;> simp [Follows, h])

theorem initial_append {s : String} (h : s ≠ "") (t : String) : initial (s ++ t) = initial s := by
  have nonempty : s.toList ≠ [] := fun e => h (String.toList_injective (by rw [e]; rfl))
  unfold initial
  rw [String.toList_append, List.head?_append_of_ne_nil _ nonempty]

theorem unbroken_append {s t : String} (hs : Unbroken s) (ht : Unbroken t) : Unbroken (s ++ t) := by
  intro c hc
  rw [String.toList_append, List.mem_append] at hc
  rcases hc with hc | hc
  · exact hs c hc
  · exact ht c hc

theorem takeWhile_append_of_unbroken {s x : String} (hs : Unbroken s) (hx : Follows x) :
    (s ++ x).toList.takeWhile (!isBreak ·) = s.toList := by
  have all : ∀ c ∈ s.toList, (!isBreak c) = true := fun c hc => by rw [hs c hc]; rfl
  rw [String.toList_append, List.takeWhile_append_of_pos all]
  cases rest : x.toList with
  | nil => simp
  | cons c cs =>
    have stops : isBreak c := hx c (by simp [initial, rest])
    simp [stops]

/-- A word ends where the first break is. -/
theorem word_inj {s t x y : String} (hs : Unbroken s) (ht : Unbroken t) (hx : Follows x) (hy : Follows y)
    (h : s ++ x = t ++ y) : s = t ∧ x = y := by
  have word : s = t := by
    apply String.toList_injective
    rw [← takeWhile_append_of_unbroken hs hx, h, takeWhile_append_of_unbroken ht hy]
  subst word
  exact ⟨rfl, (String.append_right_inj _).mp h⟩

theorem follows_empty : Follows "" := fun c hc => by cases hc

theorem follows_append {s : String} (h : s ≠ "") (hs : Follows s) (t : String) : Follows (s ++ t) := by
  intro c hc
  rw [initial_append h] at hc
  exact hs c hc

theorem follows_comma (t : String) : Follows (", " ++ t) := follows_append (by decide) (by decide) t

theorem follows_blank (t : String) : Follows (" " ++ t) := follows_append (by decide) (by decide) t

theorem empty_ne_comma (t : String) : "" ≠ ", " ++ t := by
  intro h
  have lists := congrArg String.toList h
  rw [String.toList_append] at lists
  cases lists

/-! ### Marks -/

/-- A letter that is there or not. -/
theorem length_mark {letter : String} (one : letter.length = 1) (m : Bool) :
    (if m then letter else "").length = m.toNat := by
  cases m with
  | false => rfl
  | true => exact one

theorem mark_of_length {letter : String} (one : letter.length = 1) {m m' : Bool} {k k' : Nat} (even : k % 2 = 0)
    (even' : k' % 2 = 0)
    (h : k + (if m then letter else "").length = k' + (if m' then letter else "").length) : m = m' := by
  rw [length_mark one, length_mark one] at h
  have bit := m.toNat_lt
  have bit' := m'.toNat_lt
  have same : m.toNat = m'.toNat := by omega
  rw [← Bool.ofNat_toNat m, same, Bool.ofNat_toNat]

end Text

/-! ## Names -/

theorem injective_of_nodup {α β : Type} {f : α → β} {l : List α} (complete : ∀ a, a ∈ l) (nodup : (l.map f).Nodup) :
    Function.Injective f :=
  fun a b h => List.inj_on_of_nodup_map nodup (complete a) (complete b) h

theorem Reg.name_injective : Function.Injective Reg.name := injective_of_nodup List.mem_finRange (by decide +kernel)

theorem Reg.unbroken_name (r : Reg) : Text.Unbroken r.name := by
  have all : ∀ r : Reg, Text.Unbroken r.name := by decide +kernel
  exact all r

/-- A register is a letter first, no sign and no `#`. -/
theorem Reg.initial_name (r : Reg) (x : String) :
    Text.initial (r.name ++ x) ≠ some '#' ∧ Text.initial (r.name ++ x) ≠ some '-' := by
  have all : ∀ r : Reg, r.name ≠ "" ∧ Text.initial r.name ≠ some '#' ∧ Text.initial r.name ≠ some '-' := by
    decide +kernel
  rw [Text.initial_append (all r).1]
  exact (all r).2

theorem Reg.hash_ne (r : Reg) (x y : String) : "#" ++ x ≠ r.name ++ y := by
  intro h
  have first : Text.initial ("#" ++ x) = some '#' := Text.initial_append (by decide) x
  exact (r.initial_name y).1 (h ▸ first)

namespace ShiftKind

theorem name_injective : Function.Injective name :=
  injective_of_nodup (l := all.toList) (fun k => by cases k <;> decide) (by decide)

theorem unbroken_name (k : ShiftKind) : Text.Unbroken k.name := by
  cases k <;> decide

end ShiftKind

namespace Condition

theorem suffixText_injective : Function.Injective suffixText :=
  injective_of_nodup (l := all.toList) (fun c => by cases c <;> decide) (by decide)

theorem unbroken_suffixText (c : Condition) : Text.Unbroken c.suffixText := by
  cases c <;> decide

/-- No letter or two. -/
theorem even_suffixText (c : Condition) : c.suffixText.length % 2 = 0 := by
  cases c <;> rfl

/-- A letter after the condition shows in the length. -/
theorem mark_inj {c c' : Condition} {m m' : Bool} {letter : String} (one : letter.length = 1)
    (h : c.suffixText ++ (if m then letter else "") = c'.suffixText ++ if m' then letter else "") : c = c' ∧ m = m' := by
  have lengths := congrArg String.length h
  rw [String.length_append, String.length_append] at lengths
  cases Text.mark_of_length one c.even_suffixText c'.even_suffixText lengths
  exact ⟨suffixText_injective ((String.append_left_inj _).mp h), rfl⟩

end Condition

namespace Opcode

theorem name_injective : Function.Injective name :=
  injective_of_nodup (l := all.toList) (fun op => by cases op <;> decide) (by decide)

theorem unbroken_name (op : Opcode) : Text.Unbroken op.name := by
  cases op <;> decide

theorem length_name (op : Opcode) : op.name.length = 3 := by
  cases op <;> rfl

end Opcode

/-! ## Operands -/

open Text

theorem Reg.comma_inj {r r' : Reg} {x y : String} (h : r.name ++ (", " ++ x) = r'.name ++ (", " ++ y)) :
    r = r' ∧ x = y := by
  obtain ⟨name, rest⟩ := word_inj r.unbroken_name r'.unbroken_name (follows_comma x) (follows_comma y) h
  exact ⟨name_injective name, (String.append_right_inj _).mp rest⟩

/-- A register and a comma, where they are not left out. -/
theorem Reg.field_inj {omitted : Bool} {r r' : Reg} {x y : String}
    (h : (if omitted then "" else r.name ++ ", ") ++ x = (if omitted then "" else r'.name ++ ", ") ++ y) :
    (omitted = false → r = r') ∧ x = y := by
  cases omitted with
  | true => exact ⟨fun e => (by cases e), (String.append_right_inj _).mp h⟩
  | false =>
    simp only [Bool.false_eq_true, if_false, String.append_assoc] at h
    obtain ⟨same, rest⟩ := comma_inj h
    exact ⟨fun _ => same, rest⟩

namespace ShiftedRegister

/-- What follows the register. -/
def shiftText (r : ShiftedRegister) : String :=
  if r.kind = .ror ∧ r.amount = 0 then ", RRX"
  else if r.amount ≠ 0 then ", " ++ r.kind.name ++ " #" ++ decimal r.amount.toNat
  else if r.kind ≠ .lsl then ", " ++ r.kind.name ++ " #32"
  else ""

theorem text_eq (r : ShiftedRegister) : r.text = r.rm.name ++ r.shiftText := rfl

/-- The amount as it is written. -/
def places (r : ShiftedRegister) : Nat := if r.amount = 0 then 32 else r.amount.toNat

theorem shiftText_cases (r : ShiftedRegister) :
    r.kind = .lsl ∧ r.amount = 0 ∧ r.shiftText = "" ∨ r.kind = .ror ∧ r.amount = 0 ∧ r.shiftText = ", RRX" ∨
      r.shiftText = ", " ++ (r.kind.name ++ (" #" ++ decimal r.places)) := by
  obtain ⟨rm, kind, amount⟩ := r
  by_cases zero : amount = 0
  · subst zero
    cases kind with
    | lsl => exact .inl ⟨rfl, rfl, rfl⟩
    | ror => exact .inr (.inl ⟨rfl, rfl, rfl⟩)
    | lsr =>
      have spelled : ", " ++ "LSR" ++ " #32" = ", " ++ ("LSR" ++ (" #" ++ decimal 32)) := by decide
      exact .inr (.inr spelled)
    | asr =>
      have spelled : ", " ++ "ASR" ++ " #32" = ", " ++ ("ASR" ++ (" #" ++ decimal 32)) := by decide
      exact .inr (.inr spelled)
  · right
    right
    simp only [shiftText, places, zero, and_false, if_false, not_false_iff, ne_eq, if_true, String.append_assoc]

theorem places_inj {r r' : ShiftedRegister} (range : r.InRange) (range' : r'.InRange) (h : r.places = r'.places) :
    r.amount = r'.amount := by
  unfold InRange at range range'
  unfold places at h
  rw [← UInt32.toNat_inj]
  by_cases zero : r.amount = 0
  · by_cases zero' : r'.amount = 0
    · rw [zero, zero']
    · rw [if_pos zero, if_neg zero'] at h
      omega
  · by_cases zero' : r'.amount = 0
    · rw [if_neg zero, if_pos zero'] at h
      omega
    · rw [if_neg zero, if_neg zero'] at h
      exact h

theorem follows_shiftText (r : ShiftedRegister) : Follows r.shiftText := by
  rcases r.shiftText_cases with ⟨-, -, e⟩ | ⟨-, -, e⟩ | e
  · rw [e]
    exact follows_empty
  · rw [e]
    decide
  · rw [e]
    exact follows_comma _

/-- RRX is no kind of shift. -/
theorem rrx_ne (k : ShiftKind) (x : String) : ", RRX" ≠ ", " ++ (k.name ++ (" " ++ x)) := by
  intro h
  have spelled : ", RRX" = ", " ++ ("RRX" ++ "") := by decide
  rw [spelled, String.append_right_inj] at h
  have name := (word_inj (by decide) k.unbroken_name follows_empty (follows_blank x) h).1
  cases k <;> exact absurd name (by decide)

theorem hash_append (x : String) : " #" ++ x = " " ++ ("#" ++ x) := by
  rw [← String.append_assoc]
  rfl

theorem shiftText_inj {r r' : ShiftedRegister} (range : r.InRange) (range' : r'.InRange)
    (h : r.shiftText = r'.shiftText) : r.kind = r'.kind ∧ r.amount = r'.amount := by
  rcases r.shiftText_cases with ⟨kind, amount, e⟩ | ⟨kind, amount, e⟩ | e
  all_goals rcases r'.shiftText_cases with ⟨kind', amount', e'⟩ | ⟨kind', amount', e'⟩ | e'
  all_goals rw [e, e'] at h
  · exact ⟨kind.trans kind'.symm, amount.trans amount'.symm⟩
  · exact absurd h (by decide)
  · exact absurd h (empty_ne_comma _)
  · exact absurd h (by decide)
  · exact ⟨kind.trans kind'.symm, amount.trans amount'.symm⟩
  · rw [hash_append] at h
    exact absurd h (rrx_ne _ _)
  · exact absurd h.symm (empty_ne_comma _)
  · rw [hash_append] at h
    exact absurd h.symm (rrx_ne _ _)
  · rw [String.append_right_inj, hash_append, hash_append] at h
    obtain ⟨kind, places⟩ := word_inj r.kind.unbroken_name r'.kind.unbroken_name (follows_blank _) (follows_blank _) h
    rw [String.append_right_inj, String.append_right_inj] at places
    exact ⟨ShiftKind.name_injective kind, places_inj range range' (decimal_injective places)⟩

theorem text_inj {r r' : ShiftedRegister} (range : r.InRange) (range' : r'.InRange) (h : r.text = r'.text) : r = r' := by
  rw [text_eq, text_eq] at h
  obtain ⟨rm, shift⟩ :=
    word_inj r.rm.unbroken_name r'.rm.unbroken_name r.follows_shiftText r'.follows_shiftText h
  obtain ⟨kind, amount⟩ := shiftText_inj range range' shift
  obtain ⟨rm, kind, amount⟩ := r
  cases Reg.name_injective rm
  cases kind
  cases amount
  rfl

theorem shiftText_ne (r : ShiftedRegister) (k : ShiftKind) (rs : Reg) :
    r.shiftText ≠ ", " ++ (k.name ++ (" " ++ rs.name)) := by
  intro h
  rcases r.shiftText_cases with ⟨-, -, e⟩ | ⟨-, -, e⟩ | e
  · exact empty_ne_comma _ (e.symm.trans h)
  · exact rrx_ne _ _ (e.symm.trans h)
  · rw [e, String.append_right_inj, hash_append] at h
    have amount := (word_inj r.kind.unbroken_name k.unbroken_name (follows_blank _) (follows_blank _) h).2
    rw [String.append_right_inj] at amount
    exact rs.hash_ne _ "" (by rw [amount, String.append_empty])

end ShiftedRegister

theorem Operand2.alike_of_text {o o' : Operand2} (range : o.InRange) (range' : o'.InRange) (h : o.text = o'.text) :
    o.Alike o' := by
  cases o with
  | immediate imm rotate =>
    cases o' with
    | immediate imm' rotate' =>
      exact .immediate range range' (hex_injective ((String.append_right_inj _).mp h))
    | shifted r => exact absurd h (r.rm.hash_ne _ _)
    | shiftedBy rm kind rs =>
      simp only [text, String.append_assoc] at h
      exact absurd h (rm.hash_ne _ _)
  | shifted r =>
    cases o' with
    | immediate imm rotate => exact absurd h.symm (r.rm.hash_ne _ _)
    | shifted r' =>
      cases ShiftedRegister.text_inj range range' h
      exact .shifted r
    | shiftedBy rm kind rs =>
      simp only [text, r.text_eq, String.append_assoc] at h
      have shift := (word_inj r.rm.unbroken_name rm.unbroken_name r.follows_shiftText (follows_comma _) h).2
      exact absurd shift (r.shiftText_ne kind rs)
  | shiftedBy rm kind rs =>
    cases o' with
    | immediate imm rotate =>
      simp only [text, String.append_assoc] at h
      exact absurd h.symm (rm.hash_ne _ _)
    | shifted r =>
      simp only [text, r.text_eq, String.append_assoc] at h
      have shift := (word_inj r.rm.unbroken_name rm.unbroken_name r.follows_shiftText (follows_comma _) h.symm).2
      exact absurd shift (r.shiftText_ne kind rs)
    | shiftedBy rm' kind' rs' =>
      simp only [text, String.append_assoc] at h
      obtain ⟨names, shift⟩ := word_inj rm.unbroken_name rm'.unbroken_name (follows_comma _) (follows_comma _) h
      rw [String.append_right_inj] at shift
      obtain ⟨kinds, amount⟩ :=
        word_inj kind.unbroken_name kind'.unbroken_name (follows_blank _) (follows_blank _) shift
      rw [String.append_right_inj] at amount
      cases Reg.name_injective names
      cases ShiftKind.name_injective kinds
      cases Reg.name_injective amount
      exact .shiftedBy rm kind rs

/-! ### Offsets -/

/-- A minus sign when the offset goes down. -/
def sign (up : Bool) : String := if up then "" else "-"

theorem sign_inj {up up' : Bool} {x y : String} (hx : initial x ≠ some '-') (hy : initial y ≠ some '-')
    (h : sign up ++ x = sign up' ++ y) : up = up' ∧ x = y := by
  have minus (t : String) : initial ("-" ++ t) = some '-' := initial_append (by decide) t
  cases up with
  | false =>
    cases up' with
    | false => exact ⟨rfl, (String.append_right_inj _).mp h⟩
    | true =>
      have h : "-" ++ x = y := h.trans String.empty_append
      exact absurd (h ▸ minus x) hy
  | true =>
    cases up' with
    | false =>
      have h : x = "-" ++ y := String.empty_append.symm.trans h
      exact absurd (h ▸ minus y) hx
    | true => exact ⟨rfl, (String.append_right_inj _).mp h⟩

namespace Offset

theorem text_immediate (up : Bool) {imm : Word} (h : imm ≠ 0) :
    (immediate imm).text up = ", " ++ ("#" ++ (sign up ++ hex imm 1)) := by
  have spelled : ", #" = ", " ++ "#" := by decide
  simp only [text, h, if_false, spelled, String.append_assoc]
  rfl

theorem text_shifted (up : Bool) (r : ShiftedRegister) : (shifted r).text up = ", " ++ (sign up ++ r.text) := by
  simp only [text, String.append_assoc]
  rfl

/-- Nothing, or a comma first. -/
theorem text_cases (o : Offset) (up : Bool) :
    o = .immediate 0 ∧ o.text up = "" ∨ ∃ t, o.text up = ", " ++ t := by
  cases o with
  | immediate imm =>
    by_cases zero : imm = 0
    · subst zero
      exact .inl ⟨rfl, rfl⟩
    · exact .inr ⟨_, text_immediate up zero⟩
  | shifted r => exact .inr ⟨_, text_shifted up r⟩

theorem hash_ne_signed (up : Bool) (r : ShiftedRegister) (x : String) : "#" ++ x ≠ sign up ++ r.text := by
  intro h
  cases up with
  | true => exact r.rm.hash_ne _ _ (h.trans String.empty_append)
  | false =>
    have first := congrArg initial h
    rw [initial_append (by decide), sign, if_neg (by decide), initial_append (by decide)] at first
    cases first

theorem text_inj {o o' : Offset} {up up' : Bool} (range : o.InRange) (range' : o'.InRange)
    (h : o.text up = o'.text up') : o = o' ∧ (o = .immediate 0 ∨ up = up') := by
  have digits (w : Word) : initial (hex w 1) ≠ some '-' := by
    rw [hex, initial_append (by decide)]
    decide
  rcases o.text_cases up with ⟨rfl, e⟩ | ⟨t, e⟩
  · rcases o'.text_cases up' with ⟨rfl, e'⟩ | ⟨t', e'⟩
    · exact ⟨rfl, .inl rfl⟩
    · rw [e, e'] at h
      exact absurd h (empty_ne_comma t')
  rcases o'.text_cases up' with ⟨rfl, e'⟩ | ⟨t', e'⟩
  · rw [e, e'] at h
    exact absurd h.symm (empty_ne_comma t)
  have nonzero {imm : Word} {up : Bool} {t : String} (e : (immediate imm).text up = ", " ++ t) : imm ≠ 0 := by
    rintro rfl
    exact empty_ne_comma t e
  cases o with
  | immediate imm =>
    rw [text_immediate up (nonzero e)] at h
    cases o' with
    | immediate imm' =>
      rw [text_immediate up' (nonzero e'), String.append_right_inj, String.append_right_inj] at h
      obtain ⟨direction, value⟩ := sign_inj (digits imm) (digits imm') h
      exact ⟨congrArg immediate (hex_injective value), .inr direction⟩
    | shifted r =>
      rw [text_shifted, String.append_right_inj] at h
      exact absurd h (hash_ne_signed up' r _)
  | shifted r =>
    rw [text_shifted] at h
    cases o' with
    | immediate imm =>
      rw [text_immediate up' (nonzero e'), String.append_right_inj] at h
      exact absurd h.symm (hash_ne_signed up r _)
    | shifted r' =>
      rw [text_shifted, String.append_right_inj] at h
      obtain ⟨direction, same⟩ := sign_inj (r.rm.initial_name _).2 (r'.rm.initial_name _).2 h
      exact ⟨congrArg shifted (ShiftedRegister.text_inj range range' same), .inr direction⟩

end Offset

/-! ## Mnemonics -/

/-- What comes after a condition and a mark starts the next word. -/
theorem suffix_inj {letter x y : String} {c c' : Condition} {m m' : Bool} (one : letter.length = 1)
    (whole : Unbroken letter)
    (h : c.suffixText ++ ((if m then letter else "") ++ (" " ++ x)) =
      c'.suffixText ++ ((if m' then letter else "") ++ (" " ++ y))) :
    c = c' ∧ m = m' ∧ x = y := by
  have mark (m : Bool) : Unbroken (if m then letter else "") := by
    cases m with
    | false => exact fun _ hc => by cases hc
    | true => exact whole
  rw [← String.append_assoc, ← @String.append_assoc c'.suffixText] at h
  obtain ⟨suffix, rest⟩ := word_inj (unbroken_append c.unbroken_suffixText (mark m))
    (unbroken_append c'.unbroken_suffixText (mark m')) (follows_blank x) (follows_blank y) h
  obtain ⟨cond, marked⟩ := Condition.mark_inj one suffix
  exact ⟨cond, marked, (String.append_right_inj _).mp rest⟩

/-- Two or three letters, as many as the other. -/
theorem stem_inj {stem stem' x y : String} (same : stem.length = stem'.length) (h : stem ++ x = stem' ++ y) :
    stem = stem' ∧ x = y := by
  have lists := congrArg String.toList h
  rw [String.toList_append, String.toList_append] at lists
  have stems : stem = stem' := String.toList_injective (List.append_inj lists same).1
  subst stems
  exact ⟨rfl, (String.append_right_inj _).mp h⟩

/-- One of two stems. -/
theorem choice_inj {m m' : Bool} {s t x y : String} (different : s ≠ t) (same : s.length = t.length)
    (h : (if m then s else t) ++ x = (if m' then s else t) ++ y) : m = m' ∧ x = y := by
  cases m with
  | false =>
    cases m' with
    | false => exact ⟨rfl, (stem_inj rfl h).2⟩
    | true => exact absurd (stem_inj same.symm h).1.symm different
  | true =>
    cases m' with
    | false => exact absurd (stem_inj same h).1 different
    | true => exact ⟨rfl, (stem_inj rfl h).2⟩

/-! ## The kind of an operation -/

/-- What the first letters say. -/
def kindOf : List Char → OperationClass
  | 'M' :: 'U' :: 'L' :: _ | 'M' :: 'L' :: 'A' :: _ => .multiply
  | 'L' :: 'D' :: 'R' :: _ | 'S' :: 'T' :: 'R' :: _ => .loadStore
  | 'S' :: 'W' :: 'I' :: _ | 'C' :: 'O' :: 'P' :: _ => .coprocessor
  | 'U' :: 'N' :: 'D' :: _ => .undefined
  | 'B' :: 'I' :: _ => .dataProcessing
  | 'B' :: _ => .branch
  | _ => .dataProcessing

theorem kindOf_text (i : Instruction) : kindOf i.text.toList = i.operation.kind := by
  obtain ⟨raw, pc, cond, o, passed⟩ := i
  cases o with
  | dataProcessing op s rn rd operand =>
    simp only [Instruction.text, String.toList_append]
    cases op <;> rfl
  | multiply accumulate s rd rn rs rm =>
    simp only [Instruction.text, String.toList_append]
    cases accumulate <;> rfl
  | transfer t =>
    simp only [Instruction.text, Transfer.text, String.append_assoc]
    rw [String.toList_append]
    cases t.load <;> rfl
  | branch link offset =>
    simp only [Instruction.text, String.toList_append]
    cases link with
    | false => cases cond <;> rfl
    | true => rfl
  | coprocessor =>
    simp only [Instruction.text]
    split
    · simp only [String.toList_append]
      rfl
    · simp only [String.toList_append]
      rfl
  | undefined =>
    simp only [Instruction.text, String.toList_append]
    rfl

/-! ## Instructions -/

namespace Transfer

/-- What follows the base register. -/
def addressing (t : Transfer) : String := if t.pre then t.offset.text t.up ++ "]" else "]" ++ t.offset.text t.up

theorem follows_addressing (t : Transfer) : Follows t.addressing := by
  unfold addressing
  split
  · rcases t.offset.text_cases t.up with ⟨-, e⟩ | ⟨x, e⟩
    · rw [e]
      decide
    · rw [e, String.append_assoc]
      exact follows_comma _
  · exact follows_append (by decide) (by decide) _

/-- The bracket closes before an offset or after it, and the two read alike only when there
    is none. -/
theorem offset_of_bracket {o o' : Offset} {up up' : Bool} (range : o.InRange) (range' : o'.InRange)
    (h : o.text up ++ "]" = "]" ++ o'.text up') : o = .immediate 0 ∧ o = o' := by
  rcases o.text_cases up with ⟨zero, e⟩ | ⟨x, e⟩
  · have bracket : "" ++ "]" = "]" ++ "" := by decide
    rw [e, bracket, String.append_right_inj] at h
    exact ⟨zero, (Offset.text_inj range range' (e.trans h)).1⟩
  · have first := congrArg initial h
    rw [e, String.append_assoc, initial_append (by decide), initial_append (by decide)] at first
    exact absurd first (by decide)

theorem addressing_inj {t t' : Transfer} (range : t.offset.InRange) (range' : t'.offset.InRange)
    (h : t.addressing = t'.addressing) :
    t.offset = t'.offset ∧ (t.offset = .immediate 0 ∨ t.pre = t'.pre ∧ t.up = t'.up) := by
  unfold addressing at h
  cases pre : t.pre with
  | true =>
    cases pre' : t'.pre with
    | true =>
      rw [pre, pre'] at h
      obtain ⟨same, direction⟩ := Offset.text_inj range range' ((String.append_left_inj _).mp h)
      exact ⟨same, direction.imp_right fun up => ⟨rfl, up⟩⟩
    | false =>
      rw [pre, pre'] at h
      obtain ⟨zero, same⟩ := offset_of_bracket range range' h
      exact ⟨same, .inl zero⟩
  | false =>
    cases pre' : t'.pre with
    | true =>
      rw [pre, pre'] at h
      obtain ⟨zero, same⟩ := offset_of_bracket range' range h.symm
      exact ⟨same.symm, .inl (same ▸ zero)⟩
    | false =>
      rw [pre, pre'] at h
      obtain ⟨same, direction⟩ := Offset.text_inj range range' ((String.append_right_inj _).mp h)
      exact ⟨same, direction.imp_right fun up => ⟨rfl, up⟩⟩

theorem text_eq (t : Transfer) (cond : String) :
    t.text cond = (if t.load then "LDR" else "STR") ++ (cond ++ ((if t.byte then "B" else "") ++ (" " ++
      (t.rd.name ++ (", [" ++ (t.rn.name ++ t.addressing)))))) := by
  simp only [text, addressing, String.append_assoc]

theorem alike_of_text {t t' : Transfer} {c c' : Condition} (range : t.offset.InRange)
    (range' : t'.offset.InRange) (h : t.text c.suffixText = t'.text c'.suffixText) : t.Alike t' ∧ c = c' := by
  have opens (x : String) : Follows (", [" ++ x) := follows_append (by decide) (by decide) x
  rw [text_eq, text_eq] at h
  obtain ⟨load, rest⟩ := choice_inj (by decide) (by rfl) h
  obtain ⟨cond, byte, arguments⟩ := suffix_inj rfl (by decide) rest
  obtain ⟨rd, rest⟩ := word_inj t.rd.unbroken_name t'.rd.unbroken_name (opens _) (opens _) arguments
  rw [String.append_right_inj] at rest
  obtain ⟨rn, address⟩ :=
    word_inj t.rn.unbroken_name t'.rn.unbroken_name t.follows_addressing t'.follows_addressing rest
  obtain ⟨offset, addressing⟩ := addressing_inj range range' address
  exact ⟨⟨load, byte, Reg.name_injective rn, Reg.name_injective rd, offset, addressing⟩, cond⟩

end Transfer

namespace Instruction

variable {i j : Instruction}

/-- A branch is a B or a BL; the L shows in the length. -/
theorem branch_inj {link link' : Bool} {c c' : Condition} {x y : String}
    (h : "B" ++ ((if link then "L" else "") ++ (c.suffixText ++ (" " ++ x))) =
      "B" ++ ((if link' then "L" else "") ++ (c'.suffixText ++ (" " ++ y)))) :
    link = link' ∧ c = c' ∧ x = y := by
  have letter (link : Bool) : Unbroken (if link then "L" else "") := by
    cases link <;> decide
  rw [String.append_right_inj, ← String.append_assoc, ← @String.append_assoc (if link' then "L" else "")] at h
  obtain ⟨word, rest⟩ := word_inj (unbroken_append (letter link) c.unbroken_suffixText)
    (unbroken_append (letter link') c'.unbroken_suffixText) (follows_blank x) (follows_blank y) h
  have lengths := congrArg String.length word
  rw [String.length_append, String.length_append, Nat.add_comm, Nat.add_comm _ c'.suffixText.length] at lengths
  cases mark_of_length rfl c.even_suffixText c'.even_suffixText lengths
  exact ⟨rfl, Condition.suffixText_injective ((String.append_right_inj _).mp word), (String.append_right_inj _).mp rest⟩

theorem alike_of_text (pc : i.pc = j.pc) (range : i.operation.InRange) (range' : j.operation.InRange)
    (h : i.text = j.text) : i.operation.Alike j.operation ∧ (¬i.operation.Idle → i.cond = j.cond) := by
  have kind : i.operation.kind = j.operation.kind := by rw [← kindOf_text, h, kindOf_text]
  obtain ⟨raw, _, cond, o, passed⟩ := i
  obtain ⟨raw', _, cond', o', passed'⟩ := j
  cases pc
  cases o with
  | dataProcessing op s rn rd operand =>
    cases o' with
    | dataProcessing op' s' rn' rd' operand' =>
      simp only [text, String.append_assoc] at h
      obtain ⟨stem, rest⟩ := stem_inj (op.length_name.trans op'.length_name.symm) h
      cases Opcode.name_injective stem
      obtain ⟨cond, sets, arguments⟩ := suffix_inj rfl (by decide) rest
      obtain ⟨destination, sources⟩ := Reg.field_inj arguments
      obtain ⟨first, second⟩ := Reg.field_inj sources
      -- A test has no mark; it sets the flags all the same.
      have flags : s = s' := by
        cases test : op.isTest with
        | true => rw [range.1 test, range'.1 test]
        | false => simpa [test] using sets
      cases flags
      exact ⟨.dataProcessing first destination (Operand2.alike_of_text range.2 range'.2 second), fun _ => cond⟩
    | _ => cases kind
  | multiply accumulate s rd rn rs rm =>
    cases o' with
    | multiply accumulate' s' rd' rn' rs' rm' =>
      simp only [text, String.append_assoc] at h
      obtain ⟨accumulates, rest⟩ := choice_inj (by decide) (by rfl) h
      obtain ⟨cond, sets, arguments⟩ := suffix_inj rfl (by decide) rest
      obtain ⟨destination, sources⟩ := Reg.comma_inj arguments
      obtain ⟨second, last⟩ := Reg.comma_inj sources
      cases destination
      cases second
      cases sets
      cases accumulates
      cases accumulate with
      | false =>
        cases Reg.name_injective ((String.append_left_inj _).mp last)
        exact ⟨.multiply fun used => (by cases used), fun _ => cond⟩
      | true =>
        obtain ⟨third, addend⟩ := Reg.comma_inj last
        cases third
        exact ⟨.multiply fun _ => Reg.name_injective addend, fun _ => cond⟩
    | _ => cases kind
  | transfer t =>
    cases o' with
    | transfer t' =>
      obtain ⟨alike, cond⟩ := Transfer.alike_of_text range range' h
      exact ⟨.transfer alike, fun _ => cond⟩
    | _ => cases kind
  | branch link offset =>
    cases o' with
    | branch link' offset' =>
      simp only [text, String.append_assoc] at h
      obtain ⟨links, cond, target⟩ := branch_inj h
      cases links
      have same : offset = offset' := by
        have target := hex_injective target
        exact (UInt32.add_right_inj _).mp target
      cases same
      exact ⟨.branch link offset, fun _ => cond⟩
    | _ => cases kind
  | coprocessor =>
    cases o' with
    | coprocessor => exact ⟨.idle (.inl rfl) (.inl rfl), fun active => absurd (.inl rfl) active⟩
    | _ => cases kind
  | undefined =>
    cases o' with
    | undefined => exact ⟨.idle (.inr rfl) (.inr rfl), fun active => absurd (.inr rfl) active⟩
    | _ => cases kind

end Instruction

end FiveStageArm
