/-
  FiveStageArm.Proofs.Pipeline.Timing — how many cycles a program takes, counted in the
  single-cycle core's run. With forwarding, execute is given an instruction in every cycle
  but for the two it takes to fill the pipeline, one behind each load whose data the next
  instruction reads, and two behind each taken branch.

  A stall is charged when the load executes and a flush when the branch does, so both
  counts go with the instructions that have passed execute (`Paced`). At any time `bubbles`
  tells how long execute will wait for the next.

  Proved: a program of `n` instructions halts after exactly `cycleCost` cycles, with as
  many stalls and flushes as its run has load-use pairs and taken branches
  (`halts_at_cycleCost`).
-/

import FiveStageArm.Proofs.Pipeline.Agreement
import Mathlib.Data.Nat.Count

namespace FiveStageArm

namespace SingleCycle

/-- A load, whether or not it passes, whose destination the next instruction reads. R15 is
    never read. -/
def loadThenUse (s t : SingleCycle × Machine) : Bool :=
  (current s).operation.loads && (current t).operation.reads (current s).rd

/-- How many of the first `n` instructions are such loads. -/
def loadUses (σ : Nat → SingleCycle × Machine) (n : Nat) : Nat := Nat.count (fun k => loadThenUse (σ k) (σ (k + 1))) n

/-- A branch that passes takes it, and data processing that writes R15. -/
theorem taken_iff (s : SingleCycle × Machine) : taken s ↔ (current s).branch ∨
    (current s).operation.kind = .dataProcessing ∧ (current s).regWrite ∧ (current s).rd = .pc := by
  unfold taken outcome Instruction.rd Instruction.branch Instruction.regWrite
  generalize current s = i
  obtain ⟨raw, pc, cond, o, passed⟩ := i
  cases o with
  | dataProcessing op set rn rd operand =>
    simp [Instruction.execute, Instruction.regWrite, Operation.branches, Operation.kind, Operation.rd]
  | branch link offset =>
    simp [Instruction.execute, Instruction.branch, Operation.branches, Operation.kind]
  | _ => simp [Instruction.execute, Operation.branches, Operation.kind]

/-- How many of the first `n` instructions take a branch. -/
def takenBranches (σ : Nat → SingleCycle × Machine) (n : Nat) : Nat := Nat.count (fun k => taken (σ k)) n

/-- The pairs of `n` instructions are one fewer. -/
def cycleCost (σ : Nat → SingleCycle × Machine) (n : Nat) : Nat := n + 2 + loadUses σ (n - 1) + 2 * takenBranches σ n

theorem loadUses_succ (σ : Nat → SingleCycle × Machine) (n : Nat) :
    loadUses σ (n + 1) = loadUses σ n + (loadThenUse (σ n) (σ (n + 1))).toNat := by
  unfold loadUses
  rw [Nat.count_succ]
  cases loadThenUse (σ n) (σ (n + 1)) <;> rfl

theorem takenBranches_succ (σ : Nat → SingleCycle × Machine) (n : Nat) :
    takenBranches σ (n + 1) = takenBranches σ n + (taken (σ n)).toNat := by
  unfold takenBranches
  rw [Nat.count_succ]
  cases taken (σ n) <;> rfl

theorem loadThenUse_of_taken {s : SingleCycle × Machine} (h : taken s = true) (t : SingleCycle × Machine) :
    loadThenUse s t = false := by
  have hl : (current s).operation.loads = false := (Instruction.accesses_of_branchTaken _ h).1
  simp [loadThenUse, hl]

end SingleCycle

namespace Pipeline

open SingleCycle (Run StoresClear current taken loadThenUse loadUses takenBranches cycleCost)

/-- How many cycles execute goes without an instruction. -/
def bubbles (l : Latches) : Nat := if l.idEx.isSome then 0 else if l.ifId.isSome then 1 else 2

structure Paced (σ : Nat → SingleCycle × Machine) (p : Pipeline) : Prop where
  /-- Fetch has caught up with decode. -/
  filled : p.latches.idEx.isSome → p.latches.ifId.isSome
  stalls : p.counters.stalls = loadUses σ p.nextEx
  flushes : p.counters.flushes = 2 * takenBranches σ p.nextEx
  cycles : p.counters.cycles + bubbles p.latches = p.nextEx + 2 + p.counters.stalls + p.counters.flushes
  /-- Fetch goes on behind a self-branch. -/
  spent : ∀ a ∈ p.latches.memWb, a.instruction.isSelfBranch → p.latches.ifId.isSome

/-! ## One cycle -/

section Flow

variable {s : Pipeline × Machine}

/-- A cycle uses up a bubble or executes an instruction; a flush makes two and a stall one. -/
theorem bubbles_step (hf : s.1.config.forwarding = true) (filled : s.1.latches.idEx.isSome → s.1.latches.ifId.isSome) :
    bubbles (step s).1.latches + 1 =
      bubbles s.1.latches + s.1.latches.idEx.isSome.toNat + (if flushing s then 2 else 0) + (holding s).toNat := by
  cases hi : s.1.latches.idEx with
  | none =>
    have flush := flushing_of_empty hi
    have stall := stalling_of_empty hf hi
    have hd : (step s).1.latches.idEx.isSome = s.1.latches.ifId.isSome := by
      rw [step_idEx, flush, stall]
      exact Option.isSome_map
    have hg : (step s).1.latches.ifId.isSome = true := by
      rw [step_ifId, flush, stall]
      rfl
    rw [holding, flush, stall, bubbles, bubbles, hd, hg, hi]
    cases s.1.latches.ifId <;> rfl
  | some d =>
    have full : s.1.latches.ifId.isSome = true := filled (by simp [hi])
    rw [holding, bubbles, bubbles, hi]
    obtain ⟨hn, hd, hg, -⟩ | ⟨hn, hs, hd, hg, -⟩ | ⟨hn, hs, hd, hg, -⟩ := step_front s
    · simp [hn, hd, hg]
    · simp [hn, hs, hd, hg, full]
    · simp [hn, hs, hd, full]

end Flow

section Cycle

variable {start : Nat} {σ : Nat → SingleCycle × Machine} {s : Pipeline × Machine} (run : Run start σ)
  (h : Simulates start σ s) (ready : Ready s)

include run h ready

theorem flushing_run (hi : s.1.latches.idEx.isSome) : flushing s = taken (σ s.1.nextEx) := by
  obtain ⟨d, hd⟩ := Option.isSome_iff_exists.mp hi
  have he : executing s = some (.of (executeNow s d).1 (executeNow s d).2) := by rw [executing, hd]; rfl
  rw [flushing, he, Option.any_some, (executing_run run h ready he).2.branchTaken]

/-- Decode waits exactly behind a load that the next instruction reads. -/
theorem holding_run (hf : s.1.config.forwarding = true) (paced : Paced σ s.1) (hi : s.1.latches.idEx.isSome) :
    holding s = loadThenUse (σ s.1.nextEx) (σ (s.1.nextEx + 1)) := by
  have flush := flushing_run run h ready hi
  cases ht : taken (σ s.1.nextEx) with
  | true =>
    rw [SingleCycle.loadThenUse_of_taken ht, holding, flush, ht]
    simp
  | false =>
    rw [ht] at flush
    obtain ⟨d, hd⟩ := Option.isSome_iff_exists.mp hi
    obtain ⟨f, hif⟩ := Option.isSome_iff_exists.mp (paced.filled hi)
    have decoded : d.instruction = decode _ _ := (h.idEx d hd).2.1
    have fetched := h.ifId f hif (straight_of_not_flushing run h ready flush)
    rw [show s.1.nextId = s.1.nextEx + 1 from next_of_some _ hd] at fetched
    rw [holding, flush, stalling, mustStall, ready.hazardDetection, hf, hif, fetched]
    simp only [loadUse, hd, decoded, Option.any_some]
    simp only [Bool.true_and, Bool.not_false, Bool.and_true, if_true, Instruction.memRead]
    rfl

theorem paced_step (hf : s.1.config.forwarding = true) (paced : Paced σ s.1) : Paced σ (step s).1 where
  filled := filled_step
  stalls := by
    rw [step_stalls, nextEx_step, nextId, paced.stalls]
    cases hi : s.1.latches.idEx with
    | none =>
      rw [holding, stalling_of_empty hf hi]
      rfl
    | some d =>
      rw [holding_run run h ready hf paced (by simp [hi])]
      exact (SingleCycle.loadUses_succ σ _).symm
  flushes := by
    rw [step_flushes, nextEx_step, nextId, paced.flushes]
    cases hi : s.1.latches.idEx with
    | none =>
      rw [flushing_of_empty hi]
      rfl
    | some d =>
      rw [flushing_run run h ready (by simp [hi])]
      show _ = 2 * takenBranches σ (s.1.nextEx + 1)
      rw [SingleCycle.takenBranches_succ, Nat.mul_add]
      cases taken (σ s.1.nextEx) <;> rfl
  cycles := by
    have bubbles := bubbles_step hf paced.filled
    have before := paced.cycles
    rw [step_cycles, step_stalls, step_flushes, nextEx_step, nextId]
    omega
  spent a ha hb := by
    obtain ⟨e, he, rfl⟩ := of_mem_step_memWb ha
    obtain ⟨hi, -⟩ := h.squashed e he ((h.exMem e he).2.branchTaken_of_isSelfBranch hb)
    rw [step_ifId, flushing_of_empty hi, stalling_of_empty hf hi]
    rfl

end Cycle

/-! ## The last cycle -/

section Halt

variable {start n : Nat} {σ : Nat → SingleCycle × Machine} {s : Pipeline × Machine} (run : Run start σ)
  (h : Simulates start σ s) (halts : (σ n).1.halted = true)

include run halts

theorem lt_of_running {k : Nat} (hk : (σ k).1.halted = false) : k < n := by
  by_contra hle
  have running := run.running_of_le (Nat.le_of_not_lt hle) hk
  rw [halts] at running
  cases running

/-- The last instruction is a branch, so no load. -/
theorem loadUses_last (runs : ∀ k, k < n → (σ k).1.halted = false) : loadUses σ n = loadUses σ (n - 1) := by
  cases n with
  | zero => rfl
  | succ n =>
    rw [run.halted_succ (runs n (Nat.lt_succ_self n))] at halts
    have ht := SingleCycle.taken_of_isSelfBranch _ halts
    rw [SingleCycle.loadUses_succ, SingleCycle.loadThenUse_of_taken ht]
    rfl

include h

theorem nextEx_le : s.1.nextEx ≤ n := by
  have wb := lt_of_running run halts h.running_nextWb
  cases he : s.1.latches.exMem with
  | some e =>
    have mem := lt_of_running run halts (h.exMem e he).1
    simp only [nextEx, he, Option.isSome_some, Bool.toNat_true]
    omega
  | none =>
    have le : s.1.latches.memWb.isSome.toNat ≤ 1 := Bool.toNat_le _
    simp only [nextEx, nextMem, he, Option.isSome_none, Bool.toNat_false]
    omega

/-- The cycle that halts the pipeline finds execute empty, and fetch one address ahead. -/
theorem last_cycle (paced : Paced σ s.1) (runs : ∀ k, k < n → (σ k).1.halted = false)
    (last : (step s).1.halted = true) :
    s.1.nextMem = n ∧ s.1.nextEx = n ∧ s.1.latches.idEx = none ∧ bubbles s.1.latches = 1 := by
  rw [step_halted, h.running, Bool.false_or] at last
  cases ha : s.1.latches.memWb with
  | none => simp [ha] at last
  | some a =>
    rw [ha] at last
    obtain ⟨hx, hi⟩ := h.spent a ha last
    have full := paced.spent a ha last
    have mem : s.1.nextMem = s.1.nextWb + 1 := next_of_some _ ha
    have ex : s.1.nextEx = s.1.nextMem := next_of_none _ hx
    have ended : (σ (s.1.nextWb + 1)).1.halted = true := by
      rw [run.halted_succ h.running_nextWb, ← (h.memWb a ha).instruction]
      exact last
    have le := nextEx_le run h halts
    have number : s.1.nextMem = n := by
      by_contra hne
      have running := runs (s.1.nextWb + 1) (by omega)
      rw [ended] at running
      cases running
    exact ⟨number, ex.trans number, hi, by simp [bubbles, hi, full]⟩

/-- Before it the program has not had its time. -/
theorem cycles_lt (paced : Paced σ s.1) (runs : ∀ k, k < n → (σ k).1.halted = false) :
    s.1.counters.cycles < cycleCost σ n := by
  have le := nextEx_le run h halts
  have cycles := paced.cycles
  rw [paced.stalls, paced.flushes] at cycles
  unfold cycleCost
  rcases Nat.lt_or_eq_of_le le with hlt | heq
  · have loads : loadUses σ s.1.nextEx ≤ loadUses σ (n - 1) := Nat.count_monotone _ (by omega)
    have branches : takenBranches σ s.1.nextEx ≤ takenBranches σ n := Nat.count_monotone _ le
    omega
  · have empty : s.1.latches.idEx = none := by
      cases hi : s.1.latches.idEx with
      | none => rfl
      | some d =>
        have running := (h.idEx d hi).1
        rw [heq, halts] at running
        cases running
    have wait : 0 < bubbles s.1.latches := by
      simp only [bubbles, empty, Option.isSome_none, Bool.false_eq_true, if_false]
      split <;> decide
    rw [heq, loadUses_last run halts runs] at cycles
    omega

end Halt

/-! ## A whole program -/

section Program

variable {p : Pipeline} {c : SingleCycle} {m : Machine} (h : Starts p c m)

include h

theorem Starts.paced : Paced (fun k => SingleCycle.step^[k] (c, m)) p := by
  have first : p.nextEx = 0 := h.numbers.2.2.1
  refine ⟨?_, ?_, ?_, ?_, ?_⟩
  · simp [h.latches, Latches.empty]
  · rw [first, h.counters]
    exact (Nat.count_zero _).symm
  · rw [first, h.counters, takenBranches, Nat.count_zero]
    rfl
  · rw [first, h.counters, h.latches]
    rfl
  · simp [h.latches, Latches.empty]

theorem Starts.cycles_iterate (n : Nat) : (step^[n] (p, m)).1.counters.cycles = n := by
  induction n with
  | zero =>
    show p.counters.cycles = 0
    rw [h.counters]
    rfl
  | succ n ih => rw [Function.iterate_succ_apply', step_cycles, ih]

variable (hf : p.config.forwarding = true) (clear : StoresClear fun k => SingleCycle.step^[k] (c, m))

include hf clear

theorem Starts.paced_at {n : Nat} (fetches : FetchesClear (fun k => step^[k] (p, m)) n)
    (running : ∀ k, k < n → (step^[k] (p, m)).1.halted = false) :
    Paced (fun k => SingleCycle.step^[k] (c, m)) (step^[n] (p, m)).1 := by
  induction n with
  | zero => exact h.paced
  | succ n ih =>
    have before : FetchesClear (fun k => step^[k] (p, m)) n := fun k hk => fetches k (by omega)
    have paced := ih before fun k hk => running k (by omega)
    have simulates := h.simulates_at clear before fun k hk => running k (by omega)
    have forwarding : (step^[n] (p, m)).1.config.forwarding = true := by rw [config_iterate, hf]
    rw [Function.iterate_succ_apply']
    exact paced_step (SingleCycle.run_iterate (c, m) h.wired) simulates (h.ready fetches (Nat.lt_succ_self n))
      forwarding paced

variable {n : Nat} (halts : (SingleCycle.step^[n] (c, m)).1.halted = true)
  (runs : ∀ k, k < n → (SingleCycle.step^[k] (c, m)).1.halted = false)

include halts runs

theorem Starts.exists_halted
    (fetches : FetchesClear (fun k => step^[k] (p, m)) (cycleCost (fun k => SingleCycle.step^[k] (c, m)) n)) :
    ∃ k, k ≤ cycleCost (fun k => SingleCycle.step^[k] (c, m)) n ∧ (step^[k] (p, m)).1.halted = true := by
  by_contra hno
  have running : ∀ k, k ≤ cycleCost (fun k => SingleCycle.step^[k] (c, m)) n →
      (step^[k] (p, m)).1.halted = false := by
    intro k hk
    exact Bool.eq_false_iff.mpr fun halted => hno ⟨k, hk, halted⟩
  have paced := h.paced_at hf clear fetches fun k hk => running k (Nat.le_of_lt hk)
  have simulates := h.simulates_at clear fetches running
  have lt := cycles_lt (SingleCycle.run_iterate (c, m) h.wired) simulates halts paced runs
  rw [h.cycles_iterate] at lt
  exact Nat.lt_irrefl _ lt

/-- The last cycle uses up one of the two bubbles behind the self-branch. -/
theorem Starts.at_halt {j : Nat} (fetches : FetchesClear (fun k => step^[k] (p, m)) (j + 1))
    (before : ∀ k, k < j + 1 → (step^[k] (p, m)).1.halted = false) (halted : (step^[j + 1] (p, m)).1.halted = true) :
    j + 1 = cycleCost (fun k => SingleCycle.step^[k] (c, m)) n ∧
      (step^[j + 1] (p, m)).1.counters.instructions = n ∧
      (step^[j + 1] (p, m)).1.counters.stalls = loadUses (fun k => SingleCycle.step^[k] (c, m)) (n - 1) ∧
      (step^[j + 1] (p, m)).1.counters.flushes = 2 * takenBranches (fun k => SingleCycle.step^[k] (c, m)) n := by
  have run := SingleCycle.run_iterate (c, m) h.wired
  have earlier : FetchesClear (fun k => step^[k] (p, m)) j := fun k hk => fetches k (by omega)
  have simulates := h.simulates_at clear earlier fun k hk => before k (by omega)
  have paced := h.paced_at hf clear earlier fun k hk => before k (by omega)
  have after := h.paced_at hf clear fetches before
  have loads := loadUses_last run halts runs
  rw [Function.iterate_succ_apply'] at halted after ⊢
  obtain ⟨mem, ex, empty, wait⟩ := last_cycle run simulates halts paced runs halted
  have ex' : (step (step^[j] (p, m))).1.nextEx = n := by
    rw [nextEx_step, nextId, ex, empty]
    rfl
  refine ⟨?_, (nextWb_step _).trans mem, ?_, ?_⟩
  · have cycles := paced.cycles
    rw [wait, paced.stalls, paced.flushes, ex, loads, h.cycles_iterate] at cycles
    exact cycles
  · rw [after.stalls, ex', loads]
  · rw [after.flushes, ex']

end Program

/-- The pipeline going through `τ` halts after `cost` cycles, having retired the `n`
    instructions of `σ`. -/
structure HaltsAt (σ : Nat → SingleCycle × Machine) (n : Nat) (τ : Nat → Pipeline × Machine) (cost : Nat) : Prop where
  before : ∀ k, k < cost → (τ k).1.halted = false
  halted : (τ cost).1.halted = true
  cycles : (τ cost).1.counters.cycles = cost
  instructions : (τ cost).1.counters.instructions = n
  stalls : (τ cost).1.counters.stalls = loadUses σ (n - 1)
  flushes : (τ cost).1.counters.flushes = 2 * takenBranches σ n

/-- A program that the core runs to its halt takes the pipeline, with forwarding, one cycle for
    each instruction, two to fill, one for each load-use pair and two for each taken branch. -/
theorem halts_at_cycleCost {p : Pipeline} {c : SingleCycle} {m : Machine} {n cost : Nat} (h : Starts p c m)
    (hf : p.config.forwarding = true) (clear : StoresClear fun k => SingleCycle.step^[k] (c, m))
    (halts : (SingleCycle.step^[n] (c, m)).1.halted = true)
    (runs : ∀ k, k < n → (SingleCycle.step^[k] (c, m)).1.halted = false)
    (hc : cycleCost (fun k => SingleCycle.step^[k] (c, m)) n = cost)
    (fetches : FetchesClear (fun k => step^[k] (p, m)) cost) :
    HaltsAt (fun k => SingleCycle.step^[k] (c, m)) n (fun k => step^[k] (p, m)) cost := by
  have stops := h.exists_halted hf clear halts runs (hc ▸ fetches)
  obtain ⟨hle, halted⟩ := Nat.find_spec stops
  have before : ∀ k, k < Nat.find stops → (step^[k] (p, m)).1.halted = false := by
    intro k hk
    exact Bool.eq_false_iff.mpr fun halted => Nat.find_min stops hk ⟨by omega, halted⟩
  generalize Nat.find stops = first at hle halted before
  cases first with
  | zero =>
    have running : p.halted = true := halted
    rw [h.running] at running
    cases running
  | succ j =>
    have upTo : FetchesClear (fun k => step^[k] (p, m)) (j + 1) := fun k hk => fetches k (by omega)
    obtain ⟨time, instructions, stalls, flushes⟩ := h.at_halt hf clear halts runs upTo before halted
    rw [hc] at time
    rw [time] at before halted instructions stalls flushes
    exact ⟨before, halted, h.cycles_iterate cost, instructions, stalls, flushes⟩

/-- Six instructions, one of them a load that the next one needs, and the branch. -/
theorem halts_at_cycleCost_storeAndReload :
    (step^[11] (.fresh, storeAndReload)).1.halted = true ∧
      (step^[11] (.fresh, storeAndReload)).1.counters.stalls = 1 ∧
      (step^[11] (.fresh, storeAndReload)).1.counters.flushes = 2 := by
  have cost : cycleCost (fun k => SingleCycle.step^[k] (.fresh, storeAndReload)) 6 = 11 := by decide +kernel
  have loads : loadUses (fun k => SingleCycle.step^[k] (.fresh, storeAndReload)) 5 = 1 := by decide +kernel
  have branches : takenBranches (fun k => SingleCycle.step^[k] (.fresh, storeAndReload)) 6 = 1 := by decide +kernel
  have halts := halts_at_cycleCost starts_storeAndReload rfl storesClear_storeAndReload (by decide +kernel)
    (by decide +kernel) cost (by decide +kernel)
  exact ⟨halts.halted, halts.stalls.trans loads, halts.flushes.trans (by rw [branches])⟩

end Pipeline

end FiveStageArm
