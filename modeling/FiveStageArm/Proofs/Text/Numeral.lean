/-
  FiveStageArm.Proofs.Text.Numeral — what is written as a number reads back as that number.
  The digits come off the end when they are written and off the front when they are read.

  Proved: a number in any radix up to 16, zeros in front included, followed by anything, is
  read as a number already read up to there (`readDigits_hexDigits`, `readDigits_decimal`).
  So two numbers written alike are the same (`hex_injective`, `decimal_injective`).
-/

import FiveStageArm.Text
import Mathlib.Logic.Function.Defs

namespace FiveStageArm.Text

/-! ## Digits -/

theorem digit?_digitChar {radix d : Nat} (small : radix ≤ 16) (h : d < radix) :
    digit? radix (Nat.digitChar d) = some d := by
  have table : ∀ r : Fin 17, ∀ d : Fin 16, d.val < r.val → digit? r (Nat.digitChar d) = some d.val := by
    decide +kernel
  exact table ⟨radix, by omega⟩ ⟨d, by omega⟩ h

theorem readDigits_toDigits {radix : Nat} (big : 1 < radix) (small : radix ≤ 16) (n : Nat) (rest : List Char) :
    readDigits radix 0 (Nat.toDigits radix n ++ rest) = readDigits radix n rest := by
  induction n using Nat.strongRecOn generalizing rest with
  | ind n ih =>
    rw [Nat.toDigits_eq_if big]
    by_cases last : n < radix
    · rw [if_pos last]
      show readDigits radix 0 (n.digitChar :: rest) = _
      rw [readDigits, digit?_digitChar small last]
      show readDigits radix (0 * radix + n) rest = _
      rw [Nat.zero_mul, Nat.zero_add]
    · have shorter : n / radix < n := Nat.div_lt_self (by omega) big
      have digit : n % radix < radix := Nat.mod_lt _ (by omega)
      rw [if_neg last, List.append_assoc, ih _ shorter]
      show readDigits radix (n / radix) ((n % radix).digitChar :: rest) = _
      rw [readDigits, digit?_digitChar small digit]
      show readDigits radix (n / radix * radix + n % radix) rest = _
      rw [Nat.div_add_mod']

/-! ## Numbers as they are written -/

theorem toList_padLeft (width : Nat) (fill : Char) (s : String) :
    (padLeft width fill s).toList = List.replicate (width - s.toList.length) fill ++ s.toList :=
  String.toList_ofList

theorem readDigits_zeros (k : Nat) (cs : List Char) :
    readDigits 16 0 (List.replicate k '0' ++ cs) = readDigits 16 0 cs := by
  induction k with
  | zero => rfl
  | succ k ih => exact ih

theorem toList_hexDigits (width n : Nat) :
    ∃ k, (hexDigits width n).toList = List.replicate k '0' ++ Nat.toDigits 16 n :=
  ⟨_, by rw [hexDigits, toList_padLeft, String.toList_ofList]⟩

theorem readDigits_hexDigits (width n : Nat) (rest : List Char) :
    readDigits 16 0 ((hexDigits width n).toList ++ rest) = readDigits 16 n rest := by
  obtain ⟨k, written⟩ := toList_hexDigits width n
  rw [written, List.append_assoc, readDigits_zeros, readDigits_toDigits (by decide) (by decide)]

theorem readDigits_decimal (n : Nat) (rest : List Char) :
    readDigits 10 0 ((decimal n).toList ++ rest) = readDigits 10 n rest := by
  rw [decimal, String.toList_ofList, readDigits_toDigits (by decide) (by decide)]

/-! ## Different numbers are written differently -/

theorem hexDigits_injective (width : Nat) : Function.Injective (hexDigits width) := by
  intro n n' h
  have read := readDigits_hexDigits width n []
  rw [h, readDigits_hexDigits] at read
  exact (Prod.ext_iff.mp read).1.symm

theorem decimal_injective : Function.Injective decimal := by
  intro n n' h
  have read := readDigits_decimal n []
  rw [h, readDigits_decimal] at read
  exact (Prod.ext_iff.mp read).1.symm

theorem hex_injective {w w' : Word} {width : Nat} (h : hex w width = hex w' width) : w = w' := by
  have digits : hexDigits width w.toNat = hexDigits width w'.toNat := (String.append_right_inj _).mp h
  exact UInt32.toNat_inj.mp (hexDigits_injective width digits)

end FiveStageArm.Text
