/-
  FiveStageArm.Proofs.Pipeline.Lockstep — whole runs of the pipeline next to a run of the
  single-cycle core. Forwarding may be switched between cycles (`Cycles`); all else is
  `step`.

  The cycles up to the halt keep the simulation as long as each is one that `Ready` asks
  for: fetch stays away from DATA (`FetchesClear`), and a cycle without forwarding finds the
  instruction in ID/EX settled. The latter is so after any cycle without forwarding, which
  leaves the cycles in which forwarding is switched off (`SwitchesSettled`).

  Proved: the instructions written back are those of the core's run, in order, and each
  stage has left its effects as the core would (`matches_of_simulates`).
-/

import FiveStageArm.Proofs.Pipeline.Simulation

namespace FiveStageArm

namespace Pipeline

open SingleCycle (Run StoresClear)

/-! ## Runs -/

/-- The states in which cycles begin: each is a step after the one before it, forwarding
    set as it may be. -/
def Cycles (τ : Nat → Pipeline × Machine) : Prop :=
  ∀ k, ∃ on, τ (k + 1) = ((step (τ k)).1.setForwarding on, (step (τ k)).2)

theorem cycles_iterate (s : Pipeline × Machine) : Cycles (fun k => step^[k] s) := by
  intro k
  refine ⟨(step (step^[k] s)).1.config.forwarding, ?_⟩
  show step^[k + 1] s = _
  rw [Function.iterate_succ_apply']
  rfl

def Accessed.retirement (a : Accessed) : Retirement := .of a.instruction a.value

/-- What the first `n` cycles write back. -/
def retirements (τ : Nat → Pipeline × Machine) (n : Nat) : List Retirement :=
  (List.range n).filterMap fun k => (τ k).1.latches.memWb.map Accessed.retirement

theorem retirements_succ (τ : Nat → Pipeline × Machine) (n : Nat) : retirements τ (n + 1) =
    retirements τ n ++ ((τ n).1.latches.memWb.map Accessed.retirement).toList := by
  unfold retirements
  rw [List.range_succ, List.filterMap_append]
  cases h : (τ n).1.latches.memWb <;> simp [h]

/-- In the first `n` cycles nothing is fetched from DATA, on the wrong path either. -/
def FetchesClear (τ : Nat → Pipeline × Machine) (n : Nat) : Prop :=
  ∀ k, k < n → holding (τ k) = false → align (τ k).1.pc ≠ Board.uartBase

/-- Forwarding is switched off only when the instruction in ID/EX needs none. -/
def SwitchesSettled (τ : Nat → Pipeline × Machine) (n : Nat) : Prop :=
  ∀ k, k + 1 < n → (τ k).1.config.forwarding = true → (τ (k + 1)).1.config.forwarding = false → Settled (τ (k + 1))

instance (τ : Nat → Pipeline × Machine) (n : Nat) : Decidable (FetchesClear τ n) :=
  inferInstanceAs (Decidable (∀ k, k < n → _))

instance (τ : Nat → Pipeline × Machine) (n : Nat) : Decidable (SwitchesSettled τ n) :=
  decidable_of_iff (∀ k, k < n → k + 1 < n → (τ k).1.config.forwarding = true →
      (τ (k + 1)).1.config.forwarding = false → Settled (τ (k + 1)))
    ⟨fun h k hk => h k (by omega) hk, fun h k _ hk => h k hk⟩

/-- After `n` cycles the pipeline is where the core is. -/
structure Matches (σ : Nat → SingleCycle × Machine) (τ : Nat → Pipeline × Machine) (n : Nat) : Prop where
  retired : retirements τ n = (List.range (τ n).1.counters.instructions).map fun k => SingleCycle.retirement (σ k)
  executed : ∀ k, k < (τ n).1.counters.instructions → (σ k).1.halted = false
  agrees : Agrees σ (τ n)
  /-- Behind the self-branch that halts the core, nothing is left half done. -/
  drained : (τ n).1.halted → (τ n).1.latches.exMem = none ∧ (τ n).1.latches.memWb = none

/-! ## Switching -/

section Switching

variable {start : Nat} {σ : Nat → SingleCycle × Machine} {s : Pipeline × Machine}

theorem Agrees.setForwarding (h : Agrees σ s) (on : Bool) : Agrees σ (s.1.setForwarding on, s.2) :=
  ⟨h.registers, h.board, h.flags, h.halted⟩

/-- The setting is not part of what is in flight. -/
theorem Simulates.setForwarding (h : Simulates start σ s) (on : Bool) :
    Simulates start σ (s.1.setForwarding on, s.2) where
  toAgrees := h.toAgrees.setForwarding on
  running := h.running
  started := h.started
  unstaged := h.unstaged
  code := h.code
  memWb := h.memWb
  exMem := h.exMem
  idEx := h.idEx
  ifId := h.ifId
  pc := h.pc
  squashed := h.squashed
  spent := h.spent
  apart := h.apart

end Switching

section Runs

variable {start : Nat} {σ : Nat → SingleCycle × Machine} {τ : Nat → Pipeline × Machine} {n : Nat}

theorem Cycles.nextWb_succ (cycles : Cycles τ) (k : Nat) : (τ (k + 1)).1.nextWb = (τ k).1.nextMem := by
  obtain ⟨on, e⟩ := cycles k
  rw [e]
  exact nextWb_step (τ k)

theorem Cycles.nextMem_succ (cycles : Cycles τ) (k : Nat) : (τ (k + 1)).1.nextMem = (τ k).1.nextEx := by
  obtain ⟨on, e⟩ := cycles k
  rw [e]
  exact nextMem_step (τ k)

theorem Cycles.nextWb_mono (cycles : Cycles τ) {j k : Nat} (hjk : j ≤ k) : (τ j).1.nextWb ≤ (τ k).1.nextWb := by
  induction hjk with
  | refl => exact Nat.le_refl _
  | @step k _ ih =>
    rw [cycles.nextWb_succ]
    exact Nat.le_trans ih (Nat.le_add_right _ _)

theorem Cycles.hazardDetection (cycles : Cycles τ) (hz : (τ 0).1.config.hazardDetection = true) (k : Nat) :
    (τ k).1.config.hazardDetection = true := by
  induction k with
  | zero => exact hz
  | succ k ih =>
    obtain ⟨on, e⟩ := cycles k
    rw [e]
    show (step (τ k)).1.config.hazardDetection = true
    rw [step_config, ih]

/-- Decode takes every condition to pass; execute resolves it. -/
theorem Cycles.passed (cycles : Cycles τ) (hp : ∀ d ∈ (τ 0).1.latches.idEx, d.instruction.passed) (k : Nat) :
    ∀ d ∈ (τ k).1.latches.idEx, d.instruction.passed := by
  cases k with
  | zero => exact hp
  | succ k =>
    obtain ⟨on, e⟩ := cycles k
    intro d hd
    rw [e] at hd
    obtain ⟨f, -, -, -, rfl⟩ := of_mem_step_idEx hd
    rfl

theorem Cycles.settled (cycles : Cycles τ) (hz : (τ 0).1.config.hazardDetection = true)
    (hp : ∀ d ∈ (τ 0).1.latches.idEx, d.instruction.passed) (h0 : Settled (τ 0)) (switches : SwitchesSettled τ n)
    {k : Nat} (hk : k < n) : (τ k).1.config.forwarding = true ∨ Settled (τ k) := by
  cases k with
  | zero => exact Or.inr h0
  | succ k =>
    cases hf : (τ (k + 1)).1.config.forwarding with
    | true => exact Or.inl rfl
    | false =>
      right
      cases hb : (τ k).1.config.forwarding with
      | true => exact switches k hk hb hf
      | false =>
        have settled := settled_step (cycles.hazardDetection hz k) (cycles.passed hp k) hb
        obtain ⟨on, e⟩ := cycles k
        rw [e]
        exact settled

theorem Cycles.ready (cycles : Cycles τ) (hz : (τ 0).1.config.hazardDetection = true)
    (hp : ∀ d ∈ (τ 0).1.latches.idEx, d.instruction.passed) (h0 : Settled (τ 0)) (switches : SwitchesSettled τ n)
    (fetches : FetchesClear τ n) {k : Nat} (hk : k < n) : Ready (τ k) :=
  ⟨cycles.hazardDetection hz k, cycles.settled hz hp h0 switches hk, fetches k hk⟩

/-! ## The simulation, cycle after cycle -/

variable (run : Run start σ) (clear : StoresClear fun k => σ (start + k)) (cycles : Cycles τ)
  (h0 : Simulates start σ (τ 0)) (ready : ∀ k, k < n → Ready (τ k))

include run clear cycles h0 ready

theorem simulates_at {k : Nat} (hk : k ≤ n) (running : ∀ j, j ≤ k → (τ j).1.halted = false) :
    Simulates start σ (τ k) := by
  induction k with
  | zero => exact h0
  | succ k ih =>
    have h := ih (by omega) fun j hj => running j (by omega)
    have alive := running (k + 1) (by omega)
    obtain ⟨on, e⟩ := cycles k
    rw [e] at alive ⊢
    have unfinished : ∀ a ∈ (τ k).1.latches.memWb, a.instruction.isSelfBranch = false := by
      intro a ha
      have halted : ((τ k).1.halted || (τ k).1.latches.memWb.any (·.instruction.isSelfBranch)) = false := by
        rw [← step_halted]
        exact alive
      rw [Option.mem_def.mp ha, h.running] at halted
      exact halted
    exact (simulates_step run h (ready k (by omega)) clear unfinished).setForwarding on

theorem agrees_at (running : ∀ k, k < n → (τ k).1.halted = false) : Agrees σ (τ n) := by
  cases n with
  | zero => exact h0.toAgrees
  | succ n =>
    have h := simulates_at run clear cycles h0 ready (Nat.le_succ n) fun j hj => running j (by omega)
    obtain ⟨on, e⟩ := cycles n
    rw [e]
    exact (agrees_step run h (ready n (by omega))).setForwarding on

theorem drained_at (running : ∀ k, k < n → (τ k).1.halted = false) (halted : (τ n).1.halted = true) :
    (τ n).1.latches.exMem = none ∧ (τ n).1.latches.memWb = none := by
  cases n with
  | zero =>
    rw [h0.running] at halted
    cases halted
  | succ n =>
    have h := simulates_at run clear cycles h0 ready (Nat.le_succ n) fun j hj => running j (by omega)
    obtain ⟨on, e⟩ := cycles n
    rw [e] at halted ⊢
    have last : (step (τ n)).1.halted = true := halted
    rw [step_halted, h.running, Bool.false_or] at last
    cases ha : (τ n).1.latches.memWb with
    | none => simp [ha] at last
    | some a =>
      rw [ha] at last
      obtain ⟨hx, hi⟩ := h.spent a ha last
      refine ⟨?_, ?_⟩
      · show (step (τ n)).1.latches.exMem = none
        rw [step_exMem, executing, hi, Option.map_none]
      · show (step (τ n)).1.latches.memWb = none
        rw [step_memWb, hx]
        rfl

/-- Write-back takes the run's instructions one after the other. -/
theorem retirements_at (running : ∀ k, k < n → (τ k).1.halted = false) :
    (∀ k, (τ 0).1.nextWb ≤ k → k < (τ n).1.nextWb → (σ k).1.halted = false) ∧
    retirements τ n = (List.range' (τ 0).1.nextWb ((τ n).1.nextWb - (τ 0).1.nextWb)).map
      fun k => SingleCycle.retirement (σ k) := by
  induction n with
  | zero => exact ⟨by omega, by simp [retirements]⟩
  | succ n ih =>
    have hle := cycles.nextWb_mono (Nat.zero_le n)
    obtain ⟨hex, hret⟩ := ih (fun k hk => ready k (by omega)) fun k hk => running k (by omega)
    have h := simulates_at run clear cycles h0 ready (Nat.le_succ n) fun j hj => running j (by omega)
    rw [cycles.nextWb_succ, retirements_succ, hret]
    cases ha : (τ n).1.latches.memWb with
    | none =>
      rw [show (τ n).1.nextMem = (τ n).1.nextWb from next_of_none _ ha]
      exact ⟨hex, by simp⟩
    | some a =>
      rw [show (τ n).1.nextMem = (τ n).1.nextWb + 1 from next_of_some _ ha]
      have hc := h.memWb a ha
      have same : a.retirement = SingleCycle.retirement (σ (τ n).1.nextWb) := by
        rw [Accessed.retirement, SingleCycle.retirement, hc.instruction, hc.value]
      refine ⟨fun k hk hlt => ?_, ?_⟩
      · rcases Nat.lt_succ_iff_lt_or_eq.mp hlt with hlt | rfl
        · exact hex k hk hlt
        · exact h.running_nextWb
      · rw [Nat.sub_add_comm hle, List.range'_1_concat, List.map_append, Nat.add_sub_cancel' hle]
        simp [same]

theorem matches_of_simulates (first : (τ 0).1.nextWb = 0) (running : ∀ k, k < n → (τ k).1.halted = false) :
    Matches σ τ n := by
  obtain ⟨hex, hret⟩ := retirements_at run clear cycles h0 ready running
  rw [first] at hex hret
  refine ⟨?_, fun k hk => hex k (Nat.zero_le k) hk, agrees_at run clear cycles h0 ready running,
    drained_at run clear cycles h0 ready running⟩
  rw [hret, Nat.sub_zero, List.range_eq_range']
  rfl

end Runs

end Pipeline

end FiveStageArm
