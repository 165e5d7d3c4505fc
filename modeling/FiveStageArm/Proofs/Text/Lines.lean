/-
  FiveStageArm.Proofs.Text.Lines — a text read line by line, and what a line says after a
  label at its front. A text is put together from lines, each ended by a line feed, so what
  stands on a line can be told as long as the line has no line feed of its own (`OneLine`).

  Proved: the lines of a text are those it was put together from (`lines_join`), and after a
  label stands what was put there (`after?_append`). No number has a line feed, or any other
  character that is no digit (`not_mem_hexDigits`).
-/

import FiveStageArm.Text
import Mathlib.Data.List.Basic

namespace FiveStageArm.Text

/-- The lines of a text that ends each of them. -/
def lines (s : String) : List String := (s.toList.splitOn '\n').dropLast.map String.ofList

/-- What follows `label` at the front of `s`. -/
def after? (label s : String) : Option String := (label.toList.isPrefixOf? s.toList).map String.ofList

def OneLine (s : String) : Prop := '\n' ∉ s.toList

instance (s : String) : Decidable (OneLine s) := inferInstanceAs (Decidable (¬_))

theorem lines_line_append {s : String} (h : OneLine s) (t : String) : lines (line s ++ t) = s :: lines t := by
  have text : (line s ++ t).toList = s.toList ++ '\n' :: t.toList := by
    rw [line, String.toList_append, String.toList_append, List.append_assoc]
    rfl
  unfold lines
  rw [text, List.splitOn_append_cons_self_of_not_mem h, List.dropLast_cons_of_ne_nil (List.splitOn_ne_nil _ _),
    List.map_cons, String.ofList_toList]

theorem lines_join {ls : List String} (h : ∀ l ∈ ls, OneLine l) : lines (String.join (ls.map line)) = ls := by
  induction ls with
  | nil => rfl
  | cons l ls ih =>
    obtain ⟨first, rest⟩ := List.forall_mem_cons.mp h
    rw [List.map_cons, String.join_cons, lines_line_append first, ih rest]

theorem after?_append (label s : String) : after? label (label ++ s) = some s := by
  have rest : label.toList.isPrefixOf? (label ++ s).toList = some s.toList := by
    rw [List.isPrefixOf?_eq_some_iff_append_eq, String.toList_append]
  rw [after?, rest, Option.map_some, String.ofList_toList]

/-! ## Texts of one line -/

theorem oneLine_append {s t : String} : OneLine (s ++ t) ↔ OneLine s ∧ OneLine t := by
  unfold OneLine
  rw [String.toList_append, List.mem_append, not_or]

theorem oneLine_ite {p : Prop} [Decidable p] {s t : String} (hs : OneLine s) (ht : OneLine t) :
    OneLine (if p then s else t) := by
  split
  · exact hs
  · exact ht

theorem mem_toDigits {radix : Nat} (big : 1 < radix) {n : Nat} {c : Char} (h : c ∈ Nat.toDigits radix n) :
    ∃ d < radix, c = Nat.digitChar d := by
  induction n using Nat.strongRecOn with
  | ind n ih =>
    rw [Nat.toDigits_eq_if big] at h
    split at h
    · rename_i last
      exact ⟨n, last, List.mem_singleton.mp h⟩
    · rcases List.mem_append.mp h with h | h
      · exact ih _ (Nat.div_lt_self (by omega) big) h
      · exact ⟨_, Nat.mod_lt _ (by omega), List.mem_singleton.mp h⟩

/-- What is no digit stands in no number. -/
theorem not_mem_toDigits {c : Char} (other : ∀ d : Fin 16, c ≠ Nat.digitChar d) {radix : Nat} (big : 1 < radix)
    (small : radix ≤ 16) (n : Nat) : c ∉ Nat.toDigits radix n := by
  intro h
  obtain ⟨d, hd, e⟩ := mem_toDigits big h
  exact other ⟨d, by omega⟩ e

theorem not_mem_hexDigits {c : Char} (other : ∀ d : Fin 16, c ≠ Nat.digitChar d) (width n : Nat) :
    c ∉ (hexDigits width n).toList := by
  intro h
  rw [hexDigits, padLeft, String.toList_ofList, String.toList_ofList, List.leftpad] at h
  rcases List.mem_append.mp h with h | h
  · exact other 0 (List.mem_replicate.mp h).2
  · exact not_mem_toDigits other (by decide) (by decide) n h

theorem oneLine_decimal (n : Nat) : OneLine (decimal n) := by
  rw [OneLine, decimal, String.toList_ofList]
  exact not_mem_toDigits (by decide) (by decide) (by decide) n

theorem oneLine_hex (w : Word) (width : Nat) : OneLine (hex w width) :=
  oneLine_append.mpr ⟨by decide, not_mem_hexDigits (by decide) width w.toNat⟩

end FiveStageArm.Text
