/-
  FiveStageArm.Proofs.RunControl — the run loop that both cores share, as repeated steps. It
  looks at `stops` after every step and at `halted` before every step, and does nothing else.

  Proved: a run of at most `limit` steps takes some number of them, reports that number and
  ends in the state they lead to (`runFrom_iterate`). That number is the least after which
  it may end (`runFrom_first`), and a run that is cut short by its limit only can be taken up
  again (`runFrom_add`); together these are `stopsFirst_runFrom`. What its step would do in a
  halted state makes no difference to it (`runFrom_congr`).
-/

import FiveStageArm.Machine
import Mathlib.Logic.Function.Iterate
import Mathlib.Order.Bounds.Basic

namespace FiveStageArm

section

variable {σ : Type} (halted stops : σ → Bool) (step : σ → σ)

theorem runFrom_iterate (limit taken : Nat) (s : σ) :
    ∃ k, k ≤ limit ∧ runFrom halted stops step limit taken s = (taken + k, step^[k] s) := by
  induction limit generalizing taken s with
  | zero => exact ⟨0, Nat.le_refl 0, rfl⟩
  | succ limit ih =>
    unfold runFrom
    by_cases hh : halted s
    · rw [if_pos hh]
      exact ⟨0, Nat.zero_le _, rfl⟩
    rw [if_neg hh]
    by_cases hs : stops (step s)
    · rw [if_pos hs]
      exact ⟨1, by omega, rfl⟩
    · rw [if_neg hs]
      obtain ⟨k, hk, e⟩ := ih (taken + 1) (step s)
      refine ⟨k + 1, by omega, ?_⟩
      rw [e, Function.iterate_succ_apply, Nat.add_assoc, Nat.add_comm 1 k]

/-- What a step keeps, a run keeps. -/
theorem runFrom_induction {P : σ → Prop} (kept : ∀ s, P s → P (step s)) (limit taken : Nat) {s : σ} (h : P s) :
    P (runFrom halted stops step limit taken s).2 := by
  obtain ⟨k, -, e⟩ := runFrom_iterate halted stops step limit taken s
  rw [e]
  exact Function.Iterate.rec P h kept k

/-- The loop never steps a halted state. -/
theorem runFrom_congr {step' : σ → σ} (h : ∀ s, halted s = false → step s = step' s) (limit taken : Nat) (s : σ) :
    runFrom halted stops step limit taken s = runFrom halted stops step' limit taken s := by
  induction limit generalizing taken s with
  | zero => rfl
  | succ limit ih =>
    unfold runFrom
    cases hh : halted s with
    | true => rfl
    | false => simp only [h s hh, ih]

/-- The loop in a state that is told from another by `f`, as long as the other has what a step
    keeps. -/
theorem runFrom_map {τ : Type} {halted' stops' : τ → Bool} {step' : τ → τ} (f : σ → τ) {P : σ → Prop}
    (kept : ∀ s, P s → P (step s)) (hh : ∀ s, P s → halted' (f s) = halted s) (hb : ∀ s, P s → stops' (f s) = stops s)
    (hs : ∀ s, P s → step' (f s) = f (step s)) (limit taken : Nat) {s : σ} (h : P s) :
    runFrom halted' stops' step' limit taken (f s) =
      ((runFrom halted stops step limit taken s).1, f (runFrom halted stops step limit taken s).2) := by
  induction limit generalizing taken s with
  | zero => rfl
  | succ limit ih =>
    have next := kept s h
    simp only [runFrom, hh s h, hs s h, hb _ next]
    split
    · rfl
    · split
      · rfl
      · exact ih (taken + 1) next

end

/-! ## Where a run ends -/

/-- A run of at most `limit` steps may end after `k` of them: it is at its limit, the state
    is a halted one, or the last step has led to a place to break off. -/
def MayEnd {σ : Type} (halted breaks : σ → Prop) (step : σ → σ) (limit : Nat) (s : σ) (k : Nat) : Prop :=
  k = limit ∨ halted (step^[k] s) ∨ 1 ≤ k ∧ breaks (step^[k] s)

/-- A run from `s` ends where it first may, and goes on as if it had not been interrupted
    when it is only its limit that has ended it. -/
structure StopsFirst {σ : Type} (halted breaks : σ → Prop) (step : σ → σ) (run : Nat → σ → Nat × σ) (s : σ) :
    Prop where
  taken : ∀ limit, IsLeast {k | k ≤ limit ∧ MayEnd halted breaks step limit s k} (run limit s).1
  state : ∀ limit, (run limit s).2 = step^[(run limit s).1] s
  resumed : ∀ a b, (run a s).1 = a → ¬halted (run a s).2 → ¬breaks (run a s).2 →
    run (a + b) s = (a + (run b (run a s).2).1, (run b (run a s).2).2)

section

variable {σ : Type} (halted stops : σ → Bool) (step : σ → σ)

theorem runFrom_first (limit taken : Nat) (s : σ) :
    ∃ k, IsLeast {k | k ≤ limit ∧ MayEnd (halted ·) (stops ·) step limit s k} k ∧
      runFrom halted stops step limit taken s = (taken + k, step^[k] s) := by
  induction limit generalizing taken s with
  | zero => exact ⟨0, ⟨⟨Nat.le_refl 0, Or.inl rfl⟩, fun k _ => Nat.zero_le k⟩, rfl⟩
  | succ limit ih =>
    unfold runFrom
    by_cases hh : halted s
    · rw [if_pos hh]
      exact ⟨0, ⟨⟨Nat.zero_le _, Or.inr (Or.inl hh)⟩, fun k _ => Nat.zero_le k⟩, rfl⟩
    rw [if_neg hh]
    -- none of the three reasons holds before the first step
    have begins : ∀ k, MayEnd (halted ·) (stops ·) step (limit + 1) s k → 1 ≤ k := by
      rintro (_ | k) ends
      · rcases ends with h | h | ⟨h, -⟩
        · exact absurd h (by omega)
        · exact absurd h hh
        · exact h
      · omega
    by_cases hs : stops (step s)
    · rw [if_pos hs]
      exact ⟨1, ⟨⟨by omega, Or.inr (Or.inr ⟨Nat.le_refl 1, hs⟩)⟩, fun k hk => begins k hk.2⟩, rfl⟩
    rw [if_neg hs]
    obtain ⟨k, ⟨⟨le, ends⟩, least⟩, e⟩ := ih (taken + 1) (step s)
    refine ⟨k + 1, ⟨⟨by omega, ?_⟩, ?_⟩, ?_⟩
    · rcases ends with h | h | ⟨-, h⟩
      · exact Or.inl (by omega)
      · exact Or.inr (Or.inl h)
      · exact Or.inr (Or.inr ⟨by omega, h⟩)
    · rintro j ⟨hj, ends'⟩
      obtain ⟨j, rfl⟩ : ∃ i, j = i + 1 := ⟨j - 1, by have := begins j ends'; omega⟩
      have later : MayEnd (halted ·) (stops ·) step limit (step s) j := by
        rcases ends' with h | h | ⟨-, h⟩
        · exact Or.inl (by omega)
        · exact Or.inr (Or.inl h)
        · cases j with
          | zero => exact absurd h hs
          | succ j => exact Or.inr (Or.inr ⟨by omega, h⟩)
      have := least ⟨by omega, later⟩
      omega
    · rw [e, Function.iterate_succ_apply, Nat.add_assoc, Nat.add_comm 1 k]

/-- The steps taken before are only counted. -/
theorem runFrom_taken (limit taken : Nat) (s : σ) :
    runFrom halted stops step limit taken s =
      (taken + (runFrom halted stops step limit 0 s).1, (runFrom halted stops step limit 0 s).2) := by
  obtain ⟨k, least, e⟩ := runFrom_first halted stops step limit taken s
  obtain ⟨k', least', e'⟩ := runFrom_first halted stops step limit 0 s
  obtain rfl := least.unique least'
  rw [e, e', Nat.zero_add]

variable {halted stops step}

theorem runFrom_succ {s : σ} (hh : ¬halted s) (hs : ¬stops (step s)) (limit taken : Nat) :
    runFrom halted stops step (limit + 1) taken s = runFrom halted stops step limit (taken + 1) (step s) := by
  rw [runFrom, if_neg hh, if_neg hs]

/-- A run that its limit has ended goes on with a new one. -/
theorem runFrom_add (a b taken : Nat) {s : σ} (full : (runFrom halted stops step a taken s).1 = taken + a)
    (going : ¬stops (runFrom halted stops step a taken s).2) :
    runFrom halted stops step (a + b) taken s =
      runFrom halted stops step b (taken + a) (runFrom halted stops step a taken s).2 := by
  induction a generalizing taken s with
  | zero => rw [Nat.zero_add, Nat.add_zero, runFrom]
  | succ a ih =>
    by_cases hh : halted s
    · rw [runFrom, if_pos hh] at full
      omega
    by_cases hs : stops (step s)
    · rw [runFrom, if_neg hh, if_pos hs] at going
      exact absurd hs going
    rw [runFrom_succ hh hs] at full going ⊢
    rw [Nat.succ_add, runFrom_succ hh hs, ih (taken + 1) (by omega) going, Nat.add_assoc taken, Nat.add_comm 1 a]

/-- The breakpoints are those the run starts with, which no step changes. -/
theorem stopsFirst_runFrom (pc : σ → Address) (breakpoints : σ → Breakpoints)
    (hb : ∀ t, stops t ↔ halted t ∨ pc t ∈ breakpoints t) (kept : ∀ t, breakpoints (step t) = breakpoints t) (s : σ) :
    StopsFirst (halted ·) (pc · ∈ breakpoints s) step (fun limit s => runFrom halted stops step limit 0 s) s := by
  have h (k : Nat) : stops (step^[k] s) ↔ halted (step^[k] s) ∨ pc (step^[k] s) ∈ breakpoints s := by
    rw [hb, Function.Iterate.rec (breakpoints · = breakpoints s) rfl (fun t ht => (kept t).trans ht) k]
  have ends (limit : Nat) :
      MayEnd (halted ·) (stops ·) step limit s = MayEnd (halted ·) (pc · ∈ breakpoints s) step limit s := by
    funext k
    simp only [MayEnd, h]
    grind
  refine ⟨fun limit => ?_, fun limit => ?_, fun a b full running going => ?_⟩
  · obtain ⟨k, least, e⟩ := runFrom_first halted stops step limit 0 s
    rw [ends] at least
    simpa only [e, Nat.zero_add] using least
  · obtain ⟨k, -, e⟩ := runFrom_iterate halted stops step limit 0 s
    simp only [e, Nat.zero_add]
  · obtain ⟨k, -, e⟩ := runFrom_iterate halted stops step a 0 s
    have going : ¬stops (runFrom halted stops step a 0 s).2 := by
      rw [e] at running going ⊢
      exact fun hs => ((h k).mp hs).elim running going
    show runFrom halted stops step (a + b) 0 s = _
    rw [runFrom_add a b 0 (full.trans (Nat.zero_add a).symm) going, Nat.zero_add, runFrom_taken]

end

end FiveStageArm
