/-
  FiveStageArm.Proofs.Pipeline.Redirect — sending the pipeline to another address in the
  middle of a run. The instructions in EX/MEM and MEM/WB complete, those behind them
  vanish, and execution goes on at the new address.

  The run that the pipeline follows from then on is the old one up to execute and the new
  one from there (`splice`).

  Proved: `setPc`, in any cycle of a run with no self-branch on its way to write-back,
  keeps what the older two write back, and after them the pipeline retires what a core
  retires that starts at the new address where they have completed (`setPc_precise`).
-/

import FiveStageArm.Proofs.Pipeline.Agreement
import Mathlib.Data.List.Basic

namespace FiveStageArm

namespace Pipeline

open SingleCycle (Run StoresClear)

/-! ## The run that is followed -/

/-- The run `σ` up to instruction `k`, and from there the core's own from `t`. -/
def splice (σ : Nat → SingleCycle × Machine) (k : Nat) (t : SingleCycle × Machine) (j : Nat) : SingleCycle × Machine :=
  if j < k then σ j else SingleCycle.step^[j - k] t

/-- The core sent to `a` where the instructions in EX/MEM and MEM/WB have completed. -/
def redirected (σ : Nat → SingleCycle × Machine) (p : Pipeline) (a : Address) : SingleCycle × Machine :=
  ((σ p.nextEx).1.setPc a, (σ p.nextEx).2)

theorem redirected_machine (σ : Nat → SingleCycle × Machine) (p : Pipeline) (a : Address) :
    (redirected σ p a).2 = (σ p.nextEx).2 := rfl

theorem redirected_halted (σ : Nat → SingleCycle × Machine) (p : Pipeline) (a : Address) :
    (redirected σ p a).1.halted = (σ p.nextEx).1.halted := rfl

section Splice

variable {start : Nat} {σ : Nat → SingleCycle × Machine} {k : Nat} {t : SingleCycle × Machine}

theorem splice_of_lt {j : Nat} (h : j < k) : splice σ k t j = σ j := if_pos h

theorem splice_add (j : Nat) : splice σ k t (k + j) = SingleCycle.step^[j] t := by
  unfold splice
  rw [if_neg (by omega), Nat.add_sub_cancel_left]

theorem splice_self : splice σ k t k = t := splice_add 0

variable (hm : t.2 = (σ k).2) (hh : t.1.halted = (σ k).1.halted)

include hm

theorem splice_machine {j : Nat} (hj : j ≤ k) : (splice σ k t j).2 = (σ j).2 := by
  rcases Nat.lt_or_eq_of_le hj with hj | rfl
  · rw [splice_of_lt hj]
  · rw [splice_self, hm]

include hh

theorem splice_halted {j : Nat} (hj : j ≤ k) : (splice σ k t j).1.halted = (σ j).1.halted := by
  rcases Nat.lt_or_eq_of_le hj with hj | rfl
  · rw [splice_of_lt hj]
  · rw [splice_self, hh]

theorem run_splice (run : Run start σ) : Run k (splice σ k t) := by
  have next (i : Nat) : splice σ k t (k + i + 1) = SingleCycle.step (splice σ k t (k + i)) := by
    rw [Nat.add_assoc, splice_add, splice_add, Function.iterate_succ_apply']
  refine ⟨?_, fun j => ?_, fun j => ?_, fun j hj => ?_⟩
  · rw [splice_machine hm (Nat.zero_le k)]
    exact run.wired
  · rcases Nat.lt_or_ge j k with hj | hj
    · rw [splice_machine hm hj, splice_of_lt hj, run.machine]
    · obtain ⟨i, rfl⟩ := Nat.exists_eq_add_of_le hj
      rw [next]
  · rcases Nat.lt_or_ge j k with hj | hj
    · rw [splice_halted hm hh hj, splice_of_lt hj, run.halted]
    · obtain ⟨i, rfl⟩ := Nat.exists_eq_add_of_le hj
      rw [next]
  · obtain ⟨i, rfl⟩ := Nat.exists_eq_add_of_le hj
    rw [next]

end Splice

/-! ## Redirecting -/

section Redirecting

variable {start : Nat} {σ : Nat → SingleCycle × Machine} {s : Pipeline × Machine}

theorem nextMem_le_nextEx (p : Pipeline) : p.nextMem ≤ p.nextEx := Nat.le_add_right _ _

theorem nextWb_le_nextEx (p : Pipeline) : p.nextWb ≤ p.nextEx :=
  Nat.le_trans (Nat.le_add_right _ _) p.nextMem_le_nextEx

/-- What older instructions have done they have done. -/
theorem Agrees.setPc (h : Agrees σ s) (a : Address) :
    Agrees (splice σ s.1.nextEx (redirected σ s.1 a)) (s.1.setPc a, s.2) := by
  have machine {j : Nat} (hj : j ≤ s.1.nextEx) : (σ j).2 = (splice σ s.1.nextEx (redirected σ s.1 a) j).2 :=
    (splice_machine (redirected_machine σ s.1 a) hj).symm
  have halted {j : Nat} (hj : j ≤ s.1.nextEx) :
      (σ j).1.halted = (splice σ s.1.nextEx (redirected σ s.1 a) j).1.halted :=
    (splice_halted (redirected_machine σ s.1 a) (redirected_halted σ s.1 a) hj).symm
  refine ⟨fun r hr => ?_, ?_, ?_, ?_⟩
  · exact (h.registers r hr).trans (congrArg (fun m => m.registers.read r) (machine s.1.nextWb_le_nextEx))
  · exact h.board.trans (congrArg (fun m => m.board.contents) (machine s.1.nextMem_le_nextEx))
  · exact h.flags.trans (congrArg (fun m => m.registers.flags) (machine (Nat.le_refl _)))
  · exact h.halted.trans (halted s.1.nextWb_le_nextEx)

/-- With fetch and decode emptied there is nothing left of the old path. -/
theorem Simulates.setPc (h : Simulates start σ s) (a : Address) :
    Simulates s.1.nextEx (splice σ s.1.nextEx (redirected σ s.1 a)) (s.1.setPc a, s.2) where
  toAgrees := h.toAgrees.setPc a
  running := h.running
  started := Nat.le_refl _
  unstaged := h.unstaged
  code := ⟨fun f hf => absurd hf (Option.not_mem_none f), fun d hd => absurd hd (Option.not_mem_none d), h.code.exMem⟩
  memWb x hx := by
    have next : s.1.nextMem = s.1.nextWb + 1 := next_of_some _ hx
    have before : s.1.nextWb < s.1.nextEx := Nat.lt_of_lt_of_le (by omega) s.1.nextMem_le_nextEx
    show Completes x (splice σ s.1.nextEx _ s.1.nextWb)
    rw [splice_of_lt before]
    exact h.memWb x hx
  exMem e he := by
    have next : s.1.nextEx = s.1.nextMem + 1 := next_of_some _ he
    have before : s.1.nextMem < s.1.nextEx := by omega
    show (splice σ s.1.nextEx _ s.1.nextMem).1.halted = false ∧ Executes e (splice σ s.1.nextEx _ s.1.nextMem)
    rw [splice_of_lt before]
    exact h.exMem e he
  idEx d hd := absurd hd (Option.not_mem_none d)
  ifId f hf := absurd hf (Option.not_mem_none f)
  pc _ _ := by
    show align a = (splice σ s.1.nextEx (redirected σ s.1 a) s.1.nextEx).1.pc
    rw [splice_self]
    rfl
  squashed _ _ _ := ⟨rfl, rfl⟩
  spent x hx hb := ⟨(h.spent x hx hb).1, rfl⟩
  apart _ _ _ d hd := absurd hd (Option.not_mem_none d)

end Redirecting

/-- The two older instructions write back what they would have written. -/
theorem retirements_setPc (s : Pipeline × Machine) (a : Address) {n : Nat} (hn : n ≤ 2) :
    retirements (fun k => step^[k] (s.1.setPc a, s.2)) n = retirements (fun k => step^[k] s) n := by
  unfold retirements
  refine List.filterMap_congr fun k hk => ?_
  have hk : k < 2 := Nat.lt_of_lt_of_le (List.mem_range.mp hk) hn
  match k with
  | 0 => rfl
  | 1 =>
    show Option.map _ (step (s.1.setPc a, s.2)).1.latches.memWb = Option.map _ (step s).1.latches.memWb
    rw [step_memWb, step_memWb]
    rfl

/-- They are the instructions of MEM/WB and EX/MEM. -/
theorem instructions_of_retirements (s : Pipeline × Machine) :
    (retirements (fun k => step^[k] s) 2).map Retirement.instruction =
      (s.1.latches.memWb.map (·.instruction)).toList ++ (s.1.latches.exMem.map (·.instruction)).toList := by
  have second : (step s).1.latches.memWb.map (·.instruction) = s.1.latches.exMem.map (·.instruction) := by
    rw [step_memWb]
    cases s.1.latches.exMem <;> rfl
  have same (l : Option Accessed) :
      (l.map Accessed.retirement).toList.map Retirement.instruction = (l.map (·.instruction)).toList := by
    cases l <;> rfl
  rw [← second, ← same, ← same, ← List.map_append, retirements_succ, retirements_succ]
  rfl

/-- What becomes of a redirected pipeline in `n` cycles: `s` is its state before, and `t`
    the core that starts on the new path. -/
structure Redirects (σ : Nat → SingleCycle × Machine) (t : SingleCycle × Machine) (s : Pipeline × Machine) (a : Address)
    (n : Nat) : Prop where
  running : t.1.halted = false
  inFlight : (retirements (fun k => step^[k] s) 2).map Retirement.instruction =
    (s.1.latches.memWb.map (·.instruction)).toList ++ (s.1.latches.exMem.map (·.instruction)).toList
  /-- At first, what would have been retired anyway. -/
  older : n ≤ 2 → retirements (fun k => step^[k] (s.1.setPc a, s.2)) n = retirements (fun k => step^[k] s) n
  newer : 2 ≤ n → ∃ count, (∀ k, k < count → (SingleCycle.step^[k] t).1.halted = false) ∧
    retirements (fun k => step^[k] (s.1.setPc a, s.2)) n = retirements (fun k => step^[k] s) 2 ++
      (List.range count).map fun k => SingleCycle.retirement (SingleCycle.step^[k] t)
  /-- Nothing but these has had an effect. -/
  agrees : Agrees (splice σ s.1.nextEx t) (step^[n] (s.1.setPc a, s.2))

theorem redirects_of_simulates {start : Nat} {σ : Nat → SingleCycle × Machine} {s : Pipeline × Machine} {a : Address}
    {n : Nat} (run : Run start σ) (h : Simulates start σ s) (hz : s.1.config.hazardDetection = true)
    (memWb : ∀ x ∈ s.1.latches.memWb, x.instruction.isSelfBranch = false)
    (exMem : ∀ e ∈ s.1.latches.exMem, e.instruction.isSelfBranch = false)
    (clear : StoresClear fun j => SingleCycle.step^[j] (redirected σ s.1 a))
    (fetches : FetchesClear (fun j => step^[j] (s.1.setPc a, s.2)) n)
    (running : ∀ j, j < n → (step^[j] (s.1.setPc a, s.2)).1.halted = false) :
    Redirects σ (redirected σ s.1 a) s a n := by
  have run' := run_splice (redirected_machine σ s.1 a) (redirected_halted σ s.1 a) run
  have clear' : StoresClear fun j => splice σ s.1.nextEx (redirected σ s.1 a) (s.1.nextEx + j) := by
    simpa only [splice_add] using clear
  have cycles := cycles_iterate (s.1.setPc a, s.2)
  have h0 := h.setPc a
  have empty : ∀ d, d ∉ (s.1.setPc a).latches.idEx := fun d => Option.not_mem_none d
  have ready : ∀ j, j < n → Ready (step^[j] (s.1.setPc a, s.2)) := fun j hj =>
    cycles.ready hz (fun d hd => absurd hd (empty d)) (fun d hd => absurd hd (empty d)) (switchesSettled_iterate _ n)
      fetches hj
  refine ⟨running_nextEx run h memWb exMem, instructions_of_retirements s, retirements_setPc s a, fun hn => ?_,
    agrees_at run' clear' cycles h0 ready running⟩
  -- two cycles take write-back to where the new path begins
  have second : (step^[2] (s.1.setPc a, s.2)).1.nextWb = s.1.nextEx := by
    rw [cycles.nextWb_succ 1, cycles.nextMem_succ 0]
    rfl
  obtain ⟨old, ho⟩ : ∃ old, s.1.nextEx = s.1.nextWb + old := ⟨_, Nat.add_assoc _ _ _⟩
  obtain ⟨new, hw⟩ := Nat.exists_eq_add_of_le (second ▸ cycles.nextWb_mono hn)
  obtain ⟨executed, whole⟩ := retirements_at run' clear' cycles h0 ready running
  obtain ⟨-, first⟩ := retirements_at run' clear' cycles h0 (fun j hj => ready j (by omega))
    fun j hj => running j (Nat.lt_of_lt_of_le hj hn)
  have first' : retirements (fun j => step^[j] (s.1.setPc a, s.2)) 2 = (List.range' s.1.nextWb old).map
      fun k => SingleCycle.retirement (splice σ s.1.nextEx (redirected σ s.1 a) k) := by
    rw [first, second, ho]
    show List.map _ (List.range' s.1.nextWb (s.1.nextWb + old - s.1.nextWb)) = _
    rw [Nat.add_sub_cancel_left]
  have whole' : retirements (fun j => step^[j] (s.1.setPc a, s.2)) n = (List.range' s.1.nextWb (old + new)).map
      fun k => SingleCycle.retirement (splice σ s.1.nextEx (redirected σ s.1 a) k) := by
    rw [whole, hw, ho]
    show List.map _ (List.range' s.1.nextWb (s.1.nextWb + old + new - s.1.nextWb)) = _
    rw [Nat.add_assoc, Nat.add_sub_cancel_left]
  refine ⟨new, fun k hk => ?_, ?_⟩
  · have live := executed (s.1.nextEx + k) (by rw [ho, Nat.add_assoc]; exact Nat.le_add_right _ _)
      (by rw [hw]; exact Nat.add_lt_add_left hk _)
    rwa [splice_add] at live
  rw [← retirements_setPc s a (Nat.le_refl 2), first', whole', ← List.range'_append_1, List.map_append, ← ho]
  congr 1
  rw [List.range'_eq_map_range, List.map_map]
  refine List.map_congr_left fun k _ => ?_
  show SingleCycle.retirement (splice σ _ _ (s.1.nextEx + k)) = _
  rw [splice_add]

/-- Sending fetch elsewhere after `k` cycles is precise. The instructions past decode finish as
    they would have, those behind them are gone without a trace, and from there on the
    pipeline follows the core sent to the same address. -/
theorem setPc_precise {p : Pipeline} {c : SingleCycle} {m : Machine} {k n : Nat} {a : Address} {s : Pipeline × Machine}
    (h : Starts p c m) (clear : StoresClear fun j => SingleCycle.step^[j] (c, m))
    (fetches : FetchesClear (fun j => step^[j] (p, m)) k) (hs : step^[k] (p, m) = s)
    (running : ∀ j, j ≤ k → (step^[j] (p, m)).1.halted = false)
    (memWb : ∀ x ∈ s.1.latches.memWb, x.instruction.isSelfBranch = false)
    (exMem : ∀ e ∈ s.1.latches.exMem, e.instruction.isSelfBranch = false)
    (newClear : StoresClear fun j => SingleCycle.step^[j] (redirected (fun j => SingleCycle.step^[j] (c, m)) s.1 a))
    (newFetches : FetchesClear (fun j => step^[j] (s.1.setPc a, s.2)) n)
    (newRunning : ∀ j, j < n → (step^[j] (s.1.setPc a, s.2)).1.halted = false) :
    Redirects (fun j => SingleCycle.step^[j] (c, m)) (redirected (fun j => SingleCycle.step^[j] (c, m)) s.1 a) s a
      n := by
  have reached := h.simulates_at clear fetches running
  rw [hs] at reached
  have hz : s.1.config.hazardDetection = true := by rw [← hs, config_iterate, h.hazardDetection]
  exact redirects_of_simulates (SingleCycle.run_iterate (c, m) h.wired) reached hz memWb exMem newClear newFetches
    newRunning

/-- A core that is sent to `0x10` where the load has completed. -/
def reloaded : SingleCycle × Machine :=
  redirected (fun j => SingleCycle.step^[j] (.fresh, storeAndReload)) (step^[6] (.fresh, storeAndReload)).1 0x12

theorem storesClear_reloaded : StoresClear fun j => SingleCycle.step^[j] reloaded := by
  have run : Run 0 fun j => SingleCycle.step^[j] (.fresh, storeAndReload) :=
    SingleCycle.run_iterate _ starts_storeAndReload.wired
  have wired : reloaded.2.board.Wired := by
    rw [reloaded, redirected_machine]
    exact run.wired_at _
  have halted : (SingleCycle.step^[2] reloaded).1.halted = true := by decide +kernel
  exact SingleCycle.storesClear_of_halted wired halted (by decide +kernel)

/-- A load is in EX/MEM with a store ahead of it, and decode waits for what it loads. -/
theorem setPc_precise_behindLoad :
    (step^[6] (.fresh, storeAndReload)).1.latches.exMem.any (·.instruction.memRead) = true ∧
    Redirects (fun j => SingleCycle.step^[j] (.fresh, storeAndReload)) reloaded (step^[6] (.fresh, storeAndReload))
      0x12 6 := by
  refine ⟨by decide +kernel, ?_⟩
  exact setPc_precise starts_storeAndReload storesClear_storeAndReload (by decide +kernel) rfl (by decide +kernel)
    (by decide +kernel) (by decide +kernel) storesClear_reloaded (by decide +kernel) (by decide +kernel)

end Pipeline

end FiveStageArm
