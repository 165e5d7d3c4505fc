/-
  FiveStageArm.Proofs.Pipeline.Progress — the pipeline never stops retiring instructions,
  whatever the program and however the settings change from cycle to cycle.

  The latches tell when the next instruction retires: while write-back has nothing, `wait`
  goes down by one in every cycle (`wait_step`). Retiring one leaves it at two or less
  (`wait_retiring`), since fetch is idle only in the cycle after a branch has executed
  (`fed_step`). So a retirement costs three cycles at most, the filling of the pipeline
  apart.

  Proved: those bounds on the number of cycles, from reset and for every schedule of
  settings, and that fetch is never held three times in a row, nor twice with forwarding on
  (`progress`).
-/

import FiveStageArm.Proofs.Pipeline.Agreement
import FiveStageArm.Proofs.Pipeline.Calls

namespace FiveStageArm

namespace Pipeline

def withConfig (s : Pipeline × Machine) (c : Config) : Pipeline × Machine := ({ s.1 with config := c }, s.2)

/-- The states after each cycle when cycle `k` is begun with the settings `settings k`. -/
def scheduled (settings : Nat → Config) (s : Pipeline × Machine) : Nat → Pipeline × Machine
  | 0 => s
  | k + 1 => step (withConfig (scheduled settings s k) (settings k))

/-- How many cycles come before the one that retires the oldest instruction in flight, or
    the next to be fetched. -/
def wait (l : Latches) : Nat :=
  if l.memWb.isSome then 0
  else if l.exMem.isSome then 1
  else if l.idEx.isSome then 2
  else if l.ifId.isSome then 3
  else 4

/-! ## One cycle -/

section Cycle

variable (s : Pipeline × Machine)

/-- A cycle leaves fetch empty only when a branch has executed in it. -/
theorem fed_step : (step s).1.latches.exMem.isSome ∨ (step s).1.latches.ifId.isSome := by
  rcases step_front s with ⟨hf, -, -, -⟩ | ⟨-, hs, -, hi, -⟩ | ⟨-, -, -, hi, -⟩
  · left
    rw [isSome_exMem_step]
    exact isSome_idEx_of_flushing hf
  · right
    rw [hi]
    exact isSome_ifId_of_stalling hs
  · right
    rw [hi]
    rfl

variable {s}

/-- With execute and memory empty nothing keeps decode and fetch from moving on. -/
theorem front_of_clear (hi : s.1.latches.idEx = none) (hx : s.1.latches.exMem = none) :
    (step s).1.latches.idEx.isSome = s.1.latches.ifId.isSome ∧ (step s).1.latches.ifId.isSome := by
  rw [step_idEx, step_ifId, flushing_of_empty hi, stalling_of_clear hi hx]
  exact ⟨Option.isSome_map, rfl⟩

theorem wait_step (hw : s.1.latches.memWb = none) : wait (step s).1.latches + 1 = wait s.1.latches := by
  unfold wait
  rw [isSome_memWb_step, isSome_exMem_step, hw]
  cases hx : s.1.latches.exMem with
  | some e => rfl
  | none =>
    cases hi : s.1.latches.idEx with
    | some d => rfl
    | none =>
      obtain ⟨decode, fetch⟩ := front_of_clear hi hx
      rw [decode, fetch]
      cases s.1.latches.ifId <;> rfl

theorem wait_retiring (fed : s.1.latches.exMem.isSome ∨ s.1.latches.ifId.isSome) : wait (step s).1.latches ≤ 2 := by
  unfold wait
  rw [isSome_memWb_step, isSome_exMem_step]
  cases hx : s.1.latches.exMem with
  | some e => exact Nat.zero_le 2
  | none =>
    cases hi : s.1.latches.idEx with
    | some d => exact Nat.le_succ 1
    | none =>
      have full : s.1.latches.ifId.isSome := fed.resolve_left (by simp [hx])
      rw [(front_of_clear hi hx).1, full]
      exact Nat.le_refl 2

/-! ### Held cycles -/

theorem step_stalled : (step s).1.stalled = holding s := by
  rw [step_eq]
  rfl

theorem idEx_of_stalled (h : (step s).1.stalled) : (step s).1.latches.idEx = none := by
  rw [step_stalled, holding, Bool.and_eq_true] at h
  rw [step_idEx, h.1, Bool.or_true]
  rfl

/-- The bubble a held cycle sends into execute has left it in the next cycle. -/
theorem exMem_of_empty (hi : s.1.latches.idEx = none) : (step s).1.latches.exMem = none := by
  rw [step_exMem, executing, hi]
  rfl

theorem not_stalled_of_stalling (h : stalling s = false) : ¬(step s).1.stalled := by
  rw [step_stalled, holding, h]
  exact Bool.false_ne_true

end Cycle

/-! ## Any schedule -/

structure Moves (p : Pipeline) : Prop where
  fed : p.latches.memWb.isSome → p.latches.exMem.isSome ∨ p.latches.ifId.isSome
  atMost : p.counters.cycles + wait p.latches ≤ 3 * p.counters.instructions + 4
  /-- Before the first retirement every cycle counts. -/
  filling : p.counters.instructions = 0 → p.counters.cycles + wait p.latches = 4
  atLeast : 1 ≤ p.counters.instructions → p.counters.instructions + 4 ≤ p.counters.cycles

theorem Moves.of_unstarted {p : Pipeline} (h : Unstarted p) : Moves p := by
  have filling : p.counters.cycles + wait p.latches = 4 := by
    rw [h.counters, h.latches]
    rfl
  have none : p.counters.instructions = 0 := by
    rw [h.counters]
    rfl
  refine ⟨?_, by omega, fun _ => filling, by omega⟩
  simp [h.latches, Latches.empty]

theorem moves_step {s : Pipeline × Machine} (h : Moves s.1) : Moves (step s).1 := by
  have atMost := h.atMost
  have cycles := step_cycles s
  have count := step_instructions s
  cases hw : s.1.latches.memWb with
  | none =>
    have sooner := wait_step hw
    rw [hw, Option.isSome_none, Bool.toNat_false] at count
    refine ⟨fun _ => fed_step s, by omega, fun h0 => ?_, fun h1 => ?_⟩
    · have filling := h.filling (by omega)
      omega
    · have atLeast := h.atLeast (by omega)
      omega
  | some a =>
    have soon := wait_retiring (h.fed (by rw [hw]; rfl))
    have now : wait s.1.latches = 0 := by simp [wait, hw]
    rw [hw, Option.isSome_some, Bool.toNat_true] at count
    refine ⟨fun _ => fed_step s, by omega, fun h0 => by omega, fun _ => ?_⟩
    rcases Nat.eq_zero_or_pos s.1.counters.instructions with h0 | h1
    · have filling := h.filling h0
      omega
    · have atLeast := h.atLeast h1
      omega

section Schedule

variable (settings : Nat → Config) {s : Pipeline × Machine}

theorem moves_scheduled (h : Unstarted s.1) (n : Nat) : Moves (scheduled settings s n).1 := by
  induction n with
  | zero => exact Moves.of_unstarted h
  | succ n ih => exact moves_step ⟨ih.fed, ih.atMost, ih.filling, ih.atLeast⟩

theorem cycles_scheduled (h : Unstarted s.1) (n : Nat) : (scheduled settings s n).1.counters.cycles = n := by
  induction n with
  | zero =>
    show s.1.counters.cycles = 0
    rw [h.counters]
    rfl
  | succ n ih =>
    rw [scheduled, step_cycles]
    exact congrArg (· + 1) ih

theorem not_stalled_thrice (n : Nat) : ¬((scheduled settings s (n + 1)).1.stalled ∧
    (scheduled settings s (n + 2)).1.stalled ∧ (scheduled settings s (n + 3)).1.stalled) := by
  rintro ⟨first, second, third⟩
  have idEx : (scheduled settings s (n + 1)).1.latches.idEx = none := idEx_of_stalled first
  have idEx' : (scheduled settings s (n + 2)).1.latches.idEx = none := idEx_of_stalled second
  have exMem' : (scheduled settings s (n + 2)).1.latches.exMem = none := exMem_of_empty idEx
  have free : stalling (withConfig (scheduled settings s (n + 2)) (settings (n + 2))) = false :=
    stalling_of_clear idEx' exMem'
  exact not_stalled_of_stalling free third

theorem not_stalled_twice {n : Nat} (hf : (settings (n + 1)).forwarding = true) :
    ¬((scheduled settings s (n + 1)).1.stalled ∧ (scheduled settings s (n + 2)).1.stalled) := by
  rintro ⟨first, second⟩
  have idEx : (scheduled settings s (n + 1)).1.latches.idEx = none := idEx_of_stalled first
  have free : stalling (withConfig (scheduled settings s (n + 1)) (settings (n + 1))) = false :=
    stalling_of_empty hf idEx
  exact not_stalled_of_stalling free second

end Schedule

/-- How far `n` cycles of a schedule have come, and how long it is held after them. -/
structure Progresses (settings : Nat → Config) (s : Pipeline × Machine) (n : Nat) : Prop where
  atMost : n ≤ 3 * (scheduled settings s n).1.counters.instructions + 4
  atLeast : 1 ≤ (scheduled settings s n).1.counters.instructions →
    (scheduled settings s n).1.counters.instructions + 4 ≤ n
  notThrice : ¬((scheduled settings s (n + 1)).1.stalled ∧ (scheduled settings s (n + 2)).1.stalled ∧
    (scheduled settings s (n + 3)).1.stalled)
  notTwice : (settings (n + 1)).forwarding = true →
    ¬((scheduled settings s (n + 1)).1.stalled ∧ (scheduled settings s (n + 2)).1.stalled)

/-- Whatever the settings in each cycle, the pipeline retires an instruction in every three cycles
    once it is full, never more than one in a cycle, and is not held three cycles running, nor
    two with forwarding. -/
theorem progress {s : Pipeline × Machine} (settings : Nat → Config) (h : Unstarted s.1) (n : Nat) :
    Progresses settings s n := by
  have moves := moves_scheduled settings h n
  have atMost := moves.atMost
  have atLeast := moves.atLeast
  rw [cycles_scheduled settings h n] at atMost atLeast
  exact ⟨by omega, atLeast, not_stalled_thrice settings n, not_stalled_twice settings⟩

def neverForwarding (_ : Nat) : Config := ⟨false, true, false⟩

/-- The store and the addition each wait two cycles for an operand, the store in the fourth
    and the fifth. -/
theorem progress_storeAndReload :
    (scheduled neverForwarding (.fresh, storeAndReload) 4).1.stalled = true ∧
    (scheduled neverForwarding (.fresh, storeAndReload) 5).1.stalled = true ∧
    1 ≤ (scheduled neverForwarding (.fresh, storeAndReload) 14).1.counters.instructions ∧
    (scheduled neverForwarding (.fresh, storeAndReload) 14).1.counters.instructions + 4 ≤ 14 ∧
    14 ≤ 3 * (scheduled neverForwarding (.fresh, storeAndReload) 14).1.counters.instructions + 4 := by
  have retires : 1 ≤ (scheduled neverForwarding (.fresh, storeAndReload) 14).1.counters.instructions := by
    decide +kernel
  have come := progress (s := (.fresh, storeAndReload)) neverForwarding unstarted_fresh 14
  exact ⟨by decide +kernel, by decide +kernel, retires, come.atLeast retires, come.atMost⟩

end Pipeline

end FiveStageArm
