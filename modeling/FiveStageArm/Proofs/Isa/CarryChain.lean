/-
  FiveStageArm.Proofs.Isa.CarryChain — arithmetic on numbers of several words. Two such
  numbers are added or subtracted from their lowest words up, each operation taking the
  carry out of the one below it (`Opcode.chain`). Numbers stand for lists of words, of which
  each is some number's (`words_number`).

  The carry into word k is the carry out of the 32 * k bits below it: that is the invariant
  of the chain, and with it each word of the result is a word of the whole sum
  (`addWithCarry_wordOf`, `ripple_words`). A difference is a sum with the complement of the
  subtrahend, word by word and as a whole.

  Proved: ADD and then ADC, SUB and then SBC, RSB and then RSC compute the sum and the
  differences of two numbers of any number of words, with the carry and the overflow of the
  whole (`chains_compute`).
-/

import FiveStageArm.Proofs.Bits
import FiveStageArm.Isa.Alu

namespace FiveStageArm

/-! ## Numbers of several words -/

section Words

variable {w : Nat}

/-- Word `k` of a number, counted from the lowest. -/
def wordOf (x : BitVec w) (k : Nat) : Word := ⟨x.extractLsb' (32 * k) 32⟩

/-- The words of a number, lowest first. -/
def words {n : Nat} (x : BitVec (32 * n)) : List Word := (List.range n).map (wordOf x)

theorem getElem_words {n : Nat} (x : BitVec (32 * n)) {k : Nat} (hk : k < (words x).length) :
    (words x)[k] = wordOf x k := by
  simp [words]

theorem bit_wordOf (x : BitVec w) (k : Nat) {i : Nat} (hi : i < 32) : bit (wordOf x k) i = x.getLsbD (32 * k + i) := by
  simp [bit, wordOf, hi]

theorem wordOf_not (x : BitVec w) {k : Nat} (hk : 32 * (k + 1) ≤ w) : wordOf (~~~x) k = ~~~wordOf x k := by
  apply eq_of_bit
  intro i hi
  have inside : 32 * k + i < w := by omega
  rw [bit_wordOf _ _ hi, bit_not _ hi, bit_wordOf _ _ hi]
  simp [inside]

/-- The number with these words, lowest first. -/
def number : List Word → Nat
  | [] => 0
  | a :: as => two32 * number as + a.toNat

theorem testBit_number {as : List Word} {k i : Nat} (hk : k < as.length) (hi : i < 32) :
    (number as).testBit (32 * k + i) = bit as[k] i := by
  induction as generalizing k with
  | nil => exact absurd hk (Nat.not_lt_zero k)
  | cons a as ih =>
    have split (j : Nat) := Nat.testBit_two_pow_mul_add (number as) a.toNat_lt j
    show (2 ^ 32 * number as + a.toNat).testBit (32 * k + i) = bit (a :: as)[k] i
    rw [split]
    cases k with
    | zero =>
      have lowest : 32 * 0 + i < 32 := by omega
      rw [if_pos lowest, Nat.mul_zero, Nat.zero_add]
      rfl
    | succ k =>
      have above : ¬32 * (k + 1) + i < 32 := by omega
      have place : 32 * (k + 1) + i - 32 = 32 * k + i := by omega
      rw [if_neg above, place, ih (Nat.lt_of_succ_lt_succ hk)]
      rfl

/-- Every list of words is the words of its number. -/
theorem words_number (as : List Word) : words (BitVec.ofNat (32 * as.length) (number as)) = as := by
  apply List.ext_getElem
  · simp [words]
  · intro k _ hk
    apply eq_of_bit
    intro i hi
    have inside : 32 * k + i < 32 * as.length := by omega
    rw [getElem_words, bit_wordOf _ _ hi, ← testBit_number hk hi, BitVec.getLsbD_ofNat]
    simp [inside]

/-- The top bit of the top word is the sign. -/
theorem bit_wordOf_last {n : Nat} (x : BitVec (32 * (n + 1))) : bit (wordOf x n) 31 = x.msb := by
  rw [bit_wordOf _ _ (by decide), BitVec.msb_eq_getLsbD_last]
  rfl

end Words

/-! ## One word -/

section Sum

variable (a b : Word) (c : Bool)

theorem toBitVec_addWithCarry :
    (addWithCarry a b c).value.toBitVec = a.toBitVec + b.toBitVec + BitVec.setWidth 32 (BitVec.ofBool c) := by
  apply BitVec.eq_of_toNat_eq
  simp [addWithCarry]

theorem carry_addWithCarry : (addWithCarry a b c).carry = BitVec.carry 32 a.toBitVec b.toBitVec c := by
  have ha : a.toBitVec.toNat % 2 ^ 32 = a.toNat := Nat.mod_eq_of_lt a.toNat_lt
  have hb : b.toBitVec.toNat % 2 ^ 32 = b.toNat := Nat.mod_eq_of_lt b.toNat_lt
  simp only [addWithCarry, BitVec.carry, ha, hb]

theorem bit_addWithCarry {i : Nat} (hi : i < 32) :
    bit (addWithCarry a b c).value i = (bit a i ^^ (bit b i ^^ BitVec.carry i a.toBitVec b.toBitVec c)) := by
  unfold bit
  rw [toBitVec_addWithCarry, BitVec.getLsbD_add_add_bool hi]

/-- The operands agree in sign and the sum does not. -/
theorem overflow_addWithCarry :
    (addWithCarry a b c).overflow = (bit a 31 == bit b 31 && bit (addWithCarry a b c).value 31 != bit a 31) := by
  have formula : (addWithCarry a b c).overflow = bit (~~~(a ^^^ b) &&& (a ^^^ (addWithCarry a b c).value)) 31 := rfl
  rw [formula, bit_and, bit_not _ (by decide), bit_xor, bit_xor]
  cases bit a 31 <;> cases bit b 31 <;> cases bit (addWithCarry a b c).value 31 <;> rfl

end Sum

/-! ## The carry between words -/

section Carry

variable {w : Nat} (x y : BitVec w) (c : Bool)

/-- Inside a word the carry runs as it does in the whole number. -/
theorem carry_wordOf (k : Nat) {i : Nat} (hi : i ≤ 32) :
    BitVec.carry i (wordOf x k).toBitVec (wordOf y k).toBitVec (BitVec.carry (32 * k) x y c) =
      BitVec.carry (32 * k + i) x y c := by
  induction i with
  | zero => simp [BitVec.carry_zero]
  | succ i ih =>
    have hx : (wordOf x k).toBitVec.getLsbD i = x.getLsbD (32 * k + i) := bit_wordOf x k hi
    have hy : (wordOf y k).toBitVec.getLsbD i = y.getLsbD (32 * k + i) := bit_wordOf y k hi
    rw [BitVec.carry_succ, ih (by omega), hx, hy, ← Nat.add_assoc, BitVec.carry_succ]

/-- The sum with the carry in. -/
def sumWith : BitVec w := x + y + BitVec.setWidth w (BitVec.ofBool c)

theorem addWithCarry_wordOf {k : Nat} (hk : 32 * (k + 1) ≤ w) :
    (addWithCarry (wordOf x k) (wordOf y k) (BitVec.carry (32 * k) x y c)).value = wordOf (sumWith x y c) k ∧
      (addWithCarry (wordOf x k) (wordOf y k) (BitVec.carry (32 * k) x y c)).carry =
        BitVec.carry (32 * (k + 1)) x y c := by
  constructor
  · apply eq_of_bit
    intro i hi
    have inside : 32 * k + i < w := by omega
    rw [bit_addWithCarry _ _ _ hi, carry_wordOf x y c k (by omega), bit_wordOf _ _ hi, bit_wordOf _ _ hi,
      bit_wordOf _ _ hi, sumWith, BitVec.getLsbD_add_add_bool inside]
  · rw [carry_addWithCarry, carry_wordOf x y c k (by omega), Nat.mul_succ]

end Carry

/-! ## Chains -/

/-- Word by word from the lowest up: `first` on the lowest words and `next` on all others,
    each with the carry out of the one before it. -/
def Opcode.chain (first next : Opcode) (carry : Bool) : List Word → List Word → List ArithResult
  | a :: as, b :: bs =>
    let r := first.apply a b carry
    r :: chain next next r.carry as bs
  | _, _ => []

/-- The sum of two numbers word by word, with a carry into the lowest. -/
def ripple (carry : Bool) : List Word → List Word → List ArithResult
  | a :: as, b :: bs =>
    let r := addWithCarry a b carry
    r :: ripple r.carry as bs
  | _, _ => []

/-- Operations that add, up to a change of each operand, add word by word. -/
theorem chain_eq_ripple {first next : Opcode} {c c' : Bool} {f g : Word → Word}
    (lowest : ∀ a b, first.apply a b c = addWithCarry (f a) (g b) c')
    (others : ∀ a b c, next.apply a b c = addWithCarry (f a) (g b) c) (as bs : List Word) :
    first.chain next c as bs = ripple c' (as.map f) (bs.map g) := by
  induction as generalizing first c c' bs with
  | nil => rfl
  | cons a as ih =>
    cases bs with
    | nil => rfl
    | cons b bs =>
      simp only [Opcode.chain, List.map_cons, ripple, lowest]
      rw [ih (others · · _)]

/-- The reversed operation takes its operands the other way round. -/
theorem chain_reversed (c : Bool) (as bs : List Word) :
    Opcode.rsb.chain .rsc c as bs = Opcode.sub.chain .sbc c bs as := by
  have others (c : Bool) (as bs : List Word) : Opcode.rsc.chain .rsc c as bs = Opcode.sbc.chain .sbc c bs as := by
    induction as generalizing c bs with
    | nil => cases bs <;> rfl
    | cons a as ih =>
      cases bs with
      | nil => rfl
      | cons b bs => simp only [Opcode.chain, Opcode.apply, ih]
  cases as with
  | nil => cases bs <;> rfl
  | cons a as =>
    cases bs with
    | nil => rfl
    | cons b bs => simp only [Opcode.chain, Opcode.apply, others]

theorem ripple_words {w : Nat} (x y : BitVec w) (c : Bool) (m k : Nat) (h : 32 * (k + m) ≤ w) :
    ripple (BitVec.carry (32 * k) x y c) ((List.range' k m).map (wordOf x)) ((List.range' k m).map (wordOf y)) =
      (List.range' k m).map fun i => addWithCarry (wordOf x i) (wordOf y i) (BitVec.carry (32 * i) x y c) := by
  induction m generalizing k with
  | zero => rfl
  | succ m ih =>
    obtain ⟨-, carry⟩ := addWithCarry_wordOf x y c (k := k) (by omega)
    simp only [List.range'_succ, List.map_cons, ripple, carry]
    rw [ih (k + 1) (by omega)]

/-- The values of a chain are the words of `x`, and it ends with these flags. -/
structure Computes {n : Nat} (results : List ArithResult) (x : BitVec (32 * n)) (carry overflow : Bool) : Prop where
  values : results.map (·.value) = words x
  flags : results.getLast?.map (fun r => (r.carry, r.overflow)) = some (carry, overflow)

theorem computes_ripple {n : Nat} (x y : BitVec (32 * (n + 1))) (c : Bool) :
    Computes (ripple c (words x) (words y)) (sumWith x y c) (BitVec.carry (32 * (n + 1)) x y c)
      (x.msb == y.msb && (sumWith x y c).msb != x.msb) := by
  have results := ripple_words x y c (n + 1) 0 (by omega)
  -- below word 0 there is no carry but the one that comes in
  have start : BitVec.carry (32 * 0) x y c = c := BitVec.carry_zero
  rw [start, ← List.range_eq_range'] at results
  have step (k : Nat) (hk : k ≤ n) := addWithCarry_wordOf x y c (k := k) (by omega)
  unfold words
  rw [results]
  constructor
  · rw [List.map_map]
    apply List.map_congr_left
    intro k hk
    exact (step k (by simpa [Nat.lt_succ_iff] using hk)).1
  · obtain ⟨value, carry⟩ := step n (Nat.le_refl n)
    rw [List.range_succ, List.map_append, List.map_singleton, List.getLast?_concat, Option.map_some, carry,
      overflow_addWithCarry, value, bit_wordOf_last, bit_wordOf_last, bit_wordOf_last]

/-! ## Sums and differences -/

section Difference

variable {w : Nat} (x y : BitVec w)

theorem sumWith_false : sumWith x y false = x + y := by
  simp [sumWith]

theorem sumWith_not : sumWith x (~~~y) true = x - y := by
  have one : BitVec.setWidth w (BitVec.ofBool true) = 1#w := by
    apply BitVec.eq_of_toNat_eq
    simp
  rw [sumWith, one, BitVec.add_assoc, ← BitVec.neg_eq_not_add, ← BitVec.sub_eq_add_neg]

theorem value_sum (a b : Word) : (addWithCarry a b false).value = a + b := by
  rw [← UInt32.toBitVec_inj, toBitVec_addWithCarry]
  exact sumWith_false a.toBitVec b.toBitVec

/-- A difference of words is the sum with the complement and a carry in. -/
theorem value_difference (a b : Word) : (addWithCarry a (~~~b) true).value = a - b := by
  rw [← UInt32.toBitVec_inj, toBitVec_addWithCarry]
  exact sumWith_not a.toBitVec b.toBitVec

theorem carry_false : BitVec.carry w x y false = x.uaddOverflow y := by
  have hx : x.toNat % 2 ^ w = x.toNat := Nat.mod_eq_of_lt x.isLt
  have hy : y.toNat % 2 ^ w = y.toNat := Nat.mod_eq_of_lt y.isLt
  simp [BitVec.carry, BitVec.uaddOverflow, hx, hy]

theorem carry_not : BitVec.carry w x (~~~y) true = y.ule x := by
  have hx : x.toNat % 2 ^ w = x.toNat := Nat.mod_eq_of_lt x.isLt
  have hy : (~~~y).toNat % 2 ^ w = 2 ^ w - 1 - y.toNat := by
    rw [Nat.mod_eq_of_lt (~~~y).isLt, BitVec.toNat_not]
  have := y.isLt
  simp only [BitVec.carry, BitVec.ule, hx, hy, Bool.toNat_true]
  rw [decide_eq_decide]
  omega

end Difference

theorem words_not {n : Nat} (x : BitVec (32 * n)) : (words x).map (~~~·) = words (~~~x) := by
  unfold words
  rw [List.map_map]
  apply List.map_congr_left
  intro k hk
  have inside : k < n := List.mem_range.mp hk
  exact (wordOf_not x (by omega)).symm

section Chains

variable {n : Nat} (x y : BitVec (32 * (n + 1))) (c : Bool)

theorem computes_add :
    Computes (Opcode.add.chain .adc c (words x) (words y)) (x + y) (x.uaddOverflow y) (x.saddOverflow y) := by
  have chain : Opcode.add.chain .adc c (words x) (words y) = ripple false ((words x).map id) ((words y).map id) :=
    chain_eq_ripple (fun _ _ => rfl) (fun _ _ _ => rfl) _ _
  rw [chain, List.map_id, List.map_id, BitVec.saddOverflow_eq, ← carry_false, ← sumWith_false]
  exact computes_ripple x y false

theorem computes_sub : Computes (Opcode.sub.chain .sbc c (words x) (words y)) (x - y) (y.ule x) (x.ssubOverflow y) := by
  have chain : Opcode.sub.chain .sbc c (words x) (words y) = ripple true ((words x).map id) ((words y).map (~~~·)) :=
    chain_eq_ripple (fun _ _ => rfl) (fun _ _ _ => rfl) _ _
  have sign : (~~~y).msb = !y.msb := by simp [BitVec.msb_not]
  have overflow : x.ssubOverflow y = (x.msb == (~~~y).msb && (x - y).msb != x.msb) := by
    rw [BitVec.ssubOverflow_eq, sign]
    cases x.msb <;> cases y.msb <;> cases (x - y).msb <;> rfl
  rw [chain, List.map_id, words_not, overflow, ← carry_not, ← sumWith_not]
  exact computes_ripple x (~~~y) true

/-- Chains of additions and of subtractions compute the sum and the differences of numbers of
    any number of words: the carry says that the sum does not fit unsigned, or that nothing
    was borrowed, and the overflow that the result does not fit signed. -/
theorem chains_compute :
    Computes (Opcode.add.chain .adc c (words x) (words y)) (x + y) (x.uaddOverflow y) (x.saddOverflow y) ∧
      Computes (Opcode.sub.chain .sbc c (words x) (words y)) (x - y) (y.ule x) (x.ssubOverflow y) ∧
      Computes (Opcode.rsb.chain .rsc c (words x) (words y)) (y - x) (x.ule y) (y.ssubOverflow x) := by
  refine ⟨computes_add x y c, computes_sub x y c, ?_⟩
  rw [chain_reversed]
  exact computes_sub y x c

end Chains

/-- 2^32 less 1 borrows from the upper word. -/
example : (Opcode.sub.chain .sbc false [0, 1] [1, 0]).map (·.value) = [0xFFFFFFFF, 0] := by decide

end FiveStageArm
