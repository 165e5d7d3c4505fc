/-
  FiveStageArm.Proofs.Pipeline.Toggling — forwarding switched on and off while the pipeline
  runs. Switching it on is always safe: what is forwarded is what the registers will hold.
  Switching it off is not. Decode has not waited for writers that forwarding would have
  bypassed, and nothing else brings their values to the instruction already in ID/EX.

  Proved: for every schedule, each instruction is given the operands the core gives it
  exactly when forwarding is only ever switched off with a settled instruction in ID/EX, and
  then the pipeline follows the core (`toggling_follows_core`). Without that it need not
  (`toggling_loses_operand`).
-/

import FiveStageArm.Proofs.Pipeline.Agreement

namespace FiveStageArm

namespace Pipeline

open SingleCycle (Run StoresClear)

/-- The states in which cycles begin when forwarding is set to `on k` before cycle `k`. -/
def toggled (on : Nat → Bool) (s : Pipeline × Machine) : Nat → Pipeline × Machine
  | 0 => (s.1.setForwarding (on 0), s.2)
  | k + 1 => ((step (toggled on s k)).1.setForwarding (on (k + 1)), (step (toggled on s k)).2)

theorem cycles_toggled (on : Nat → Bool) (s : Pipeline × Machine) : Cycles (toggled on s) :=
  fun k => ⟨on (k + 1), rfl⟩

theorem Starts.setForwarding {p : Pipeline} {c : SingleCycle} {m : Machine} (h : Starts p c m) (on : Bool) :
    Starts (p.setForwarding on) c m :=
  ⟨h.latches, h.counters, h.running, h.hazardDetection, h.coreRunning, h.pc, h.wired, h.unstaged⟩

section

variable {start : Nat} {σ : Nat → SingleCycle × Machine} {τ : Nat → Pipeline × Machine} {n : Nat} (run : Run start σ)
  (clear : StoresClear fun k => σ (start + k)) (cycles : Cycles τ) (h0 : Simulates start σ (τ 0))
  (hz : (τ 0).1.config.hazardDetection = true) (settled : Settled (τ 0)) (fetches : FetchesClear τ n)
  (running : ∀ k, k < n → (τ k).1.halted = false)

include run clear cycles h0 hz settled fetches running

/-- The first wrong operand comes with the first unsettled switch. -/
theorem operandsAgree_iff_switchesSettled : (∀ k, k < n → OperandsAgree σ (τ k)) ↔ SwitchesSettled τ n := by
  have passed : ∀ d ∈ (τ 0).1.latches.idEx, d.instruction.passed := by
    intro d hd
    rw [(h0.idEx d hd).2.1]
    rfl
  have reached {k : Nat} (hk : k < n) (switches : SwitchesSettled τ k) : Simulates start σ (τ k) := by
    have ready : ∀ j, j < k → Ready (τ j) := fun j hj =>
      cycles.ready hz passed settled switches (fun i hi => fetches i (by omega)) hj
    exact simulates_at run clear cycles h0 ready (Nat.le_refl k) fun j hj => running j (by omega)
  constructor
  · intro ho
    -- by induction on how far the switches have been settled
    have upTo : ∀ j, j ≤ n → SwitchesSettled τ j := by
      intro j
      induction j with
      | zero => intro _ k hk; omega
      | succ j ih =>
        intro hj k hk hb hf
        rcases Nat.lt_succ_iff_lt_or_eq.mp hk with hlt | rfl
        · exact ih (by omega) k hlt hb hf
        · have agree := (operandsAgree_iff run (reached (by omega) (ih (by omega)))).mp (ho (k + 1) (by omega))
          exact agree.resolve_left (by simp [hf])
    exact upTo n (Nat.le_refl n)
  · intro switches k hk
    have before : SwitchesSettled τ k := fun j hj => switches j (by omega)
    exact (operandsAgree_iff run (reached hk before)).mpr (cycles.settled hz passed settled switches hk)

end

/-- Whatever the schedule, execute is given the operands that the core has exactly when forwarding
    is only switched off behind settled instructions, and then the pipeline follows the core. -/
theorem toggling_follows_core {p : Pipeline} {c : SingleCycle} {m : Machine} {on : Nat → Bool} {n : Nat}
    (h : Starts p c m) (clear : StoresClear fun k => SingleCycle.step^[k] (c, m))
    (fetches : FetchesClear (toggled on (p, m)) n)
    (running : ∀ k, k < n → (toggled on (p, m) k).1.halted = false) :
    ((∀ k, k < n → OperandsAgree (fun k => SingleCycle.step^[k] (c, m)) (toggled on (p, m) k)) ↔
      SwitchesSettled (toggled on (p, m)) n) ∧
    (SwitchesSettled (toggled on (p, m)) n →
      Matches (fun k => SingleCycle.step^[k] (c, m)) (toggled on (p, m)) n) := by
  have run := SingleCycle.run_iterate (c, m) h.wired
  have h' := h.setForwarding (on 0)
  have cycles := cycles_toggled on (p, m)
  refine ⟨operandsAgree_iff_switchesSettled run clear.zero_add cycles h'.simulates h'.hazardDetection h'.settled
    fetches running, fun switches => ?_⟩
  have ready : ∀ k, k < n → Ready (toggled on (p, m) k) := fun _ hk =>
    cycles.ready h'.hazardDetection h'.passed h'.settled switches fetches hk
  exact matches_of_simulates run clear.zero_add cycles h'.simulates ready h'.numbers.1 running

/-- Forwarding is off while the branch is in ID/EX, which reads no register. -/
theorem toggling_follows_core_storeAndReload :
    SwitchesSettled (toggled (fun k => decide (k < 8 ∨ 9 < k)) (.fresh, storeAndReload)) 11 ∧
    Matches (fun k => SingleCycle.step^[k] (.fresh, storeAndReload))
      (toggled (fun k => decide (k < 8 ∨ 9 < k)) (.fresh, storeAndReload)) 11 := by
  have settled : SwitchesSettled (toggled (fun k => decide (k < 8 ∨ 9 < k)) (.fresh, storeAndReload)) 11 := by
    decide +kernel
  exact ⟨settled, (toggling_follows_core starts_storeAndReload storesClear_storeAndReload (by decide +kernel)
    (by decide +kernel)).2 settled⟩

/-! ## Switching it off at the wrong time -/

/-- `MOV R1, #5`, then `ADD R2, R1, #1`, then a branch to itself. -/
def operandInFlight : Machine :=
  ⟨Board.empty.loadWords 0 [0xE3A01005, 0xE2812001, 0xEAFFFFFE], .zero⟩

/-- With forwarding off from the cycle in which the addition executes, it adds to what
    decode found in R1. -/
theorem toggling_loses_operand : ¬∀ (p : Pipeline) (c : SingleCycle) (m : Machine) (on : Nat → Bool) (n : Nat),
    Starts p c m → StoresClear (fun k => SingleCycle.step^[k] (c, m)) → FetchesClear (toggled on (p, m)) n →
    (∀ k, k < n → (toggled on (p, m) k).1.halted = false) →
    Matches (fun k => SingleCycle.step^[k] (c, m)) (toggled on (p, m)) n := by
  intro follows
  have starts : Starts .fresh .fresh operandInFlight :=
    ⟨rfl, rfl, rfl, rfl, rfl, rfl, Bus.wired_empty.loadWords _ _, rfl, rfl⟩
  have halted : (SingleCycle.step^[3] (.fresh, operandInFlight)).1.halted = true := by decide +kernel
  have clear := SingleCycle.storesClear_of_halted starts.wired halted (by decide +kernel)
  have agrees := (follows .fresh .fresh operandInFlight (fun k => decide (k < 3)) 6 starts clear (by decide +kernel)
    (by decide +kernel)).agrees
  have stale : (toggled (fun k => decide (k < 3)) (.fresh, operandInFlight) 6).2.registers.read 2 = 1 := by
    decide +kernel
  have count : (toggled (fun k => decide (k < 3)) (.fresh, operandInFlight) 6).1.nextWb = 2 := by decide +kernel
  have sum : (SingleCycle.step^[2] (.fresh, operandInFlight)).2.registers.read 2 = 6 := by decide +kernel
  have same := agrees.registers 2 (by decide)
  rw [stale, count, sum] at same
  exact absurd same (by decide)

end Pipeline

end FiveStageArm
