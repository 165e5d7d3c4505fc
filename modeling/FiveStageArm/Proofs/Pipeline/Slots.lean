/-
  FiveStageArm.Proofs.Pipeline.Slots — the books of the pipeline. A cycle that is not held
  fetches one word into a slot. The slot moves on from latch to latch and ends as a retired
  instruction, unless a branch squashes it; a held cycle fetches nothing.

  The counters say how many slots ended in which way, and the latches which are under way.
  For the books to balance a flush must find both of the slots it counts occupied, and that
  is so because decode never gets ahead of fetch.

  Proved: a cycle keeps the books (`booked_step`), so they balance after every cycle of any
  calls but those that send fetch elsewhere (`slots_conserved`).
-/

import FiveStageArm.Proofs.Bus.Build
import FiveStageArm.Proofs.Pipeline.Agreement
import FiveStageArm.Proofs.Pipeline.Calls

namespace FiveStageArm

namespace Pipeline

/-- How many latches hold an instruction. -/
def occupied (l : Latches) : Nat :=
  l.ifId.isSome.toNat + l.idEx.isSome.toNat + l.exMem.isSome.toNat + l.memWb.isSome.toNat

structure Conserved (s : Pipeline × Machine) : Prop where
  slots : s.1.counters.cycles =
    s.1.counters.instructions + s.1.counters.stalls + s.1.counters.flushes + occupied s.1.latches
  fetches : s.2.board.fetches + s.1.counters.stalls = s.1.counters.cycles

structure Booked (s : Pipeline × Machine) : Prop extends Conserved s where
  filled : s.1.latches.idEx.isSome → s.1.latches.ifId.isSome

/-! ## One cycle -/

section Cycle

variable (s : Pipeline × Machine)

theorem occupied_step (filled : s.1.latches.idEx.isSome → s.1.latches.ifId.isSome) :
    occupied (step s).1.latches + s.1.latches.memWb.isSome.toNat + (holding s).toNat + (if flushing s then 2 else 0) =
      occupied s.1.latches + 1 := by
  unfold occupied
  rw [isSome_memWb_step, isSome_exMem_step]
  rcases step_front s with ⟨hf, hd, hi, -⟩ | ⟨hf, hs, hd, hi, -⟩ | ⟨hf, hs, hd, hi, -⟩
  · -- the two slots a flush counts are in decode and in fetch
    have executes := isSome_idEx_of_flushing hf
    rw [hd, hi, holding, hf, executes, filled executes]
    simp only [Option.isSome_none, Bool.not_true, Bool.and_false, Bool.toNat_false, Bool.toNat_true, if_true]
    omega
  · rw [hd, hi, holding, hf, hs]
    simp only [Option.isSome_none, Bool.not_false, Bool.and_true, Bool.toNat_false, Bool.toNat_true,
      Bool.false_eq_true, if_false]
    omega
  · rw [hd, hi, holding, hf, hs]
    simp only [Option.isSome_map, Option.isSome_some, Bool.false_and, Bool.toNat_false, Bool.toNat_true,
      Bool.false_eq_true, if_false]
    omega

theorem fetches_step : (step s).2.board.fetches + (holding s).toNat = s.2.board.fetches + 1 := by
  have access : (accessed s).fetches = s.2.board.fetches := by
    unfold accessed accessMemory
    cases s.1.latches.exMem with
    | none => rfl
    | some e => exact Bus.fetches_access _ _ _ _
  rw [step_board]
  cases holding s with
  | true => simp [access]
  | false => simp [Bus.fetches_fetch, access]

variable {s}

theorem booked_step (h : Booked s) : Booked (step s) := by
  have slots := occupied_step s h.filled
  have fetches := fetches_step s
  refine ⟨⟨?_, ?_⟩, filled_step⟩
  · rw [step_cycles, step_instructions, step_stalls, step_flushes, h.slots]
    omega
  · rw [step_cycles, step_stalls, ← h.fetches]
    omega

end Cycle

/-! ## Any calls -/

theorem Booked.of_unstarted {s : Pipeline × Machine} (h : Unstarted s.1) (hf : s.2.board.fetches = 0) : Booked s := by
  refine ⟨⟨?_, ?_⟩, ?_⟩
  · rw [h.counters, h.latches]
    rfl
  · rw [h.counters, hf]
    rfl
  · simp [h.latches, Latches.empty]

/-- Settings and breakpoints are not in the books. -/
theorem Booked.perform {s : Pipeline × Machine} (h : Booked s) {c : Call} (hc : c.clocked = false)
    (hr : c.redirects = false) : Booked (c.perform s) := by
  cases c with
  | configure change => exact ⟨⟨h.slots, h.fetches⟩, h.filled⟩
  | setBreakpoints change => exact ⟨⟨h.slots, h.fetches⟩, h.filled⟩
  | step | cycle | run _ => cases hc
  | setPc _ | reset => cases hr

/-- Until fetch is sent elsewhere, every cycle is accounted for by what it retired, held or flushed,
    and by what is still on the way, and so is every fetch. -/
theorem slots_conserved {s : Pipeline × Machine} {calls : List Call} (h : Unstarted s.1) (hf : s.2.board.fetches = 0)
    (onPath : ∀ c ∈ calls, c.redirects = false) :
    (∀ t ∈ trail calls s, Conserved t) ∧ Conserved (perform calls s) := by
  have between : ∀ c ∈ calls, c.clocked = false → ∀ s, Booked s → Booked (c.perform s) :=
    fun c hc hk _ hs => hs.perform hk (onPath c hc)
  obtain ⟨during, after⟩ := perform_induction (P := Booked) (fun _ => booked_step) between (Booked.of_unstarted h hf)
  exact ⟨fun t ht => (during t ht).toConserved, after.toConserved⟩

/-- Forwarding goes off under way, and the run comes to the halt. -/
def offUnderWay : List Call := [.step, .step, .configure fun c => { c with forwarding := false }, .cycle, .run 100]

theorem slots_conserved_offUnderWay :
    (trail offUnderWay ((Pipeline.fresh.reset storeAndReload).1.setPc 0, storeAndReload)).length = 14 ∧
    (∀ t ∈ trail offUnderWay ((Pipeline.fresh.reset storeAndReload).1.setPc 0, storeAndReload), Conserved t) ∧
    Conserved (perform offUnderWay ((Pipeline.fresh.reset storeAndReload).1.setPc 0, storeAndReload)) :=
  ⟨by decide +kernel, slots_conserved ((unstarted_reset _ _).setPc 0) rfl (by decide)⟩

end Pipeline

end FiveStageArm
