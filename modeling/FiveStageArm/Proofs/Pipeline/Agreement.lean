/-
  FiveStageArm.Proofs.Pipeline.Agreement — the pipeline and the single-cycle core, started
  at one address on equal machines, compute the same thing.

  Proved: with hazard detection on, whether forwarding is on or off, after any number of
  cycles up to the halt the pipeline has retired the core's first instructions, as many as
  it counts, and its registers, bus and flags are the core's after those and the ones whose
  effects are already committed (`pipeline_follows_core`).

  Two things are asked of the program. Stores leave the next two instructions alone, which
  the pipeline has fetched by then; and nothing is fetched from DATA of the UART, where a
  fetch takes a byte off the queue. Wrong-path fetches count.
-/

import FiveStageArm.Proofs.Pipeline.Lockstep

namespace FiveStageArm

namespace Pipeline

open SingleCycle (StoresClear)

/-- An empty pipeline and a core about to begin at the same address of one machine. -/
structure Starts (p : Pipeline) (c : SingleCycle) (m : Machine) : Prop where
  latches : p.latches = .empty
  counters : p.counters = .zero
  running : p.halted = false
  hazardDetection : p.config.hazardDetection = true
  coreRunning : c.halted = false
  pc : p.pc = c.pc
  wired : m.board.Wired
  unstaged : m.registers.stagedWrite = none ∧ m.registers.stagedFlags = none

section

variable {p : Pipeline} {c : SingleCycle} {m : Machine} (h : Starts p c m)

include h

theorem Starts.numbers : p.nextWb = 0 ∧ p.nextMem = 0 ∧ p.nextEx = 0 ∧ p.nextId = 0 ∧ p.nextIf = 0 := by
  have first : p.nextWb = 0 := by rw [nextWb, h.counters]; rfl
  simp [nextIf, nextId, nextEx, nextMem, first, h.latches, Latches.empty]

theorem Starts.empty :
    p.latches.ifId = none ∧ p.latches.idEx = none ∧ p.latches.exMem = none ∧ p.latches.memWb = none := by
  rw [h.latches]
  exact ⟨rfl, rfl, rfl, rfl⟩

theorem Starts.settled : Settled (p, m) := by
  intro d hd
  simp [h.empty] at hd

theorem Starts.passed : ∀ d ∈ p.latches.idEx, d.instruction.passed := by
  simp [h.empty]

theorem Starts.agrees : Agrees (fun k => SingleCycle.step^[k] (c, m)) (p, m) := by
  obtain ⟨hw, hm, hx, -, -⟩ := h.numbers
  refine ⟨fun r _ => ?_, ?_, ?_, ?_⟩
  · simp only [hw]
    rfl
  · simp only [hm]
    rfl
  · simp only [hx]
    rfl
  · simp only [hw]
    exact h.running.trans h.coreRunning.symm

theorem Starts.simulates : Simulates 0 (fun k => SingleCycle.step^[k] (c, m)) (p, m) := by
  obtain ⟨ifId, idEx, exMem, memWb⟩ := h.empty
  exact {
    toAgrees := h.agrees
    running := h.running
    started := Nat.zero_le _
    unstaged := h.unstaged
    code := ⟨by simp [ifId], by simp [idEx], by simp [exMem]⟩
    memWb := by simp [memWb]
    exMem := by simp [exMem]
    idEx := by simp [idEx]
    ifId := by simp [ifId]
    pc := by
      intro _ _
      simp only [h.numbers.2.2.2.2]
      exact h.pc
    squashed := by simp [exMem]
    spent := by simp [memWb]
    apart := by
      intro e he
      simp [exMem] at he }

end

theorem config_iterate (s : Pipeline × Machine) (k : Nat) : (step^[k] s).1.config = s.1.config := by
  induction k with
  | zero => rfl
  | succ k ih => rw [Function.iterate_succ_apply', step_config, ih]

/-- A setting that stays needs no care. -/
theorem switchesSettled_iterate (s : Pipeline × Machine) (n : Nat) : SwitchesSettled (fun k => step^[k] s) n := by
  intro k _ hb hf
  simp only [config_iterate] at hb hf
  rw [hb] at hf
  cases hf

section

variable {p : Pipeline} {c : SingleCycle} {m : Machine} {n : Nat} (h : Starts p c m)

include h

theorem Starts.ready (fetches : FetchesClear (fun k => step^[k] (p, m)) n) {k : Nat} (hk : k < n) :
    Ready (step^[k] (p, m)) :=
  (cycles_iterate (p, m)).ready h.hazardDetection h.passed h.settled (switchesSettled_iterate (p, m) n) fetches hk

theorem Starts.simulates_at (clear : StoresClear fun k => SingleCycle.step^[k] (c, m))
    (fetches : FetchesClear (fun k => step^[k] (p, m)) n) (running : ∀ k, k ≤ n → (step^[k] (p, m)).1.halted = false) :
    Simulates 0 (fun k => SingleCycle.step^[k] (c, m)) (step^[n] (p, m)) :=
  Pipeline.simulates_at (SingleCycle.run_iterate (c, m) h.wired) clear.zero_add (cycles_iterate (p, m)) h.simulates
    (fun _ => h.ready fetches) (Nat.le_refl n) running

end

/-- In any number of cycles up to its halt, forwarding or not, the pipeline retires what the core
    executes first, in the same order and with the same results. Its registers, its flags and
    its memory are the core's after the instructions that have got as far as changing them. -/
theorem pipeline_follows_core {p : Pipeline} {c : SingleCycle} {m : Machine} {n : Nat} (h : Starts p c m)
    (clear : StoresClear fun k => SingleCycle.step^[k] (c, m)) (fetches : FetchesClear (fun k => step^[k] (p, m)) n)
    (running : ∀ k, k < n → (step^[k] (p, m)).1.halted = false) :
    Matches (fun k => SingleCycle.step^[k] (c, m)) (fun k => step^[k] (p, m)) n := by
  have run := SingleCycle.run_iterate (c, m) h.wired
  exact matches_of_simulates run clear.zero_add (cycles_iterate (p, m)) h.simulates (fun _ => h.ready fetches)
    h.numbers.1 running

/-- Stores a word, loads it back and needs it at once; the branch at the end is to itself. -/
def storeAndReload : Machine :=
  ⟨Board.empty.loadWords 0 [0xE3A00801, 0xE3A01005, 0xE5801000, 0xE5902000, 0xE2823001, 0xEAFFFFFE], .zero⟩

theorem starts_storeAndReload : Starts .fresh .fresh storeAndReload :=
  ⟨rfl, rfl, rfl, rfl, rfl, rfl, Bus.wired_empty.loadWords _ _, rfl, rfl⟩

theorem storesClear_storeAndReload : StoresClear fun k => SingleCycle.step^[k] (.fresh, storeAndReload) :=
  SingleCycle.storesClear_of_halted (Bus.wired_empty.loadWords _ _)
    (by decide +kernel : (SingleCycle.step^[6] (.fresh, storeAndReload)).1.halted = true) (by decide +kernel)

theorem pipeline_follows_core_storeAndReload : (step^[11] (.fresh, storeAndReload)).1.halted = true ∧
    Matches (fun k => SingleCycle.step^[k] (.fresh, storeAndReload)) (fun k => step^[k] (.fresh, storeAndReload)) 11 :=
  ⟨by decide +kernel, pipeline_follows_core starts_storeAndReload storesClear_storeAndReload (by decide +kernel)
    (by decide +kernel)⟩

end Pipeline

end FiveStageArm
