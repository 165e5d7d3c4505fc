/-
  FiveStageArm.Proofs.Pipeline.Calls — what a host may ask of a pipeline, in any order. Some
  calls take clock cycles and do nothing besides; the others change the pipeline between
  cycles and take none.

  A state met on the way is one in which a cycle ends, those inside a run included (`trail`).

  Proved: a run is as many steps as it reports (`run_eq_iterate`), the fewest after which it
  may end (`stopsFirst_run`). What a cycle keeps and the other calls keep holds after every
  cycle and after every call (`perform_induction`). No call changes how the board is built or
  how far back the trace goes (`Call.build_perform`, `Call.history_perform`).
-/

import FiveStageArm.Proofs.Bus.Build
import FiveStageArm.Proofs.Pipeline.Cycle
import FiveStageArm.Proofs.Pipeline.Window
import FiveStageArm.Proofs.RunControl

namespace FiveStageArm

namespace Pipeline

inductive Call where
  | step
  | cycle
  | run (limit : Nat)
  | setPc (a : Address)
  | reset
  | configure (change : Config → Config)
  | setBreakpoints (change : Breakpoints → Breakpoints)

namespace Call

def perform (s : Pipeline × Machine) : Call → Pipeline × Machine
  | step => Pipeline.step s
  | cycle => Pipeline.cycle s
  | run limit => (Pipeline.run limit s).2
  | setPc a => (s.1.setPc a, s.2)
  | reset => s.1.reset s.2
  | configure change => ({ s.1 with config := change s.1.config }, s.2)
  | setBreakpoints change => ({ s.1 with breakpoints := change s.1.breakpoints }, s.2)

/-- The call is made of clock cycles. -/
def clocked : Call → Bool
  | step | cycle | run _ => true
  | _ => false

/-- The call sends fetch elsewhere. -/
def redirects : Call → Bool
  | setPc _ | reset => true
  | _ => false

/-- How many clock cycles the call takes. -/
def cycles (s : Pipeline × Machine) : Call → Nat
  | step => 1
  | cycle => if s.1.halted then 0 else 1
  | run limit => (Pipeline.run limit s).1
  | _ => 0

/-- The states in which the cycles of the call end. -/
def trail (s : Pipeline × Machine) (c : Call) : List (Pipeline × Machine) :=
  (List.range (c.cycles s)).map fun k => Pipeline.step^[k + 1] s

end Call

/-- The state after the calls, made one after the other. -/
def perform (calls : List Call) (s : Pipeline × Machine) : Pipeline × Machine := calls.foldl Call.perform s

/-- The states in which the cycles of the calls end. -/
def trail : List Call → Pipeline × Machine → List (Pipeline × Machine)
  | [], _ => []
  | c :: calls, s => c.trail s ++ trail calls (c.perform s)

/-- As construction and `reset` leave a pipeline: nothing in flight and nothing counted. -/
structure Unstarted (p : Pipeline) : Prop where
  latches : p.latches = .empty
  counters : p.counters = .zero

theorem unstarted_fresh : Unstarted .fresh := ⟨rfl, rfl⟩

theorem unstarted_reset (p : Pipeline) (m : Machine) : Unstarted (p.reset m).1 := ⟨rfl, rfl⟩

/-- Where it starts is left open. -/
theorem Unstarted.setPc {p : Pipeline} (h : Unstarted p) (a : Address) : Unstarted (p.setPc a) := by
  refine ⟨?_, h.counters⟩
  rw [Pipeline.setPc, h.latches]
  rfl

/-! ## Cycles -/

/-- A run is a run of steps. -/
theorem run_eq : run = fun limit s => runFrom (·.1.halted) stops step limit 0 s := by
  funext limit s
  refine runFrom_congr _ _ _ (fun s hs => ?_) limit 0 s
  simp [cycle, hs]

theorem run_eq_iterate (limit : Nat) (s : Pipeline × Machine) : (run limit s).2 = step^[(run limit s).1] s := by
  obtain ⟨k, -, e⟩ := runFrom_iterate (fun s : Pipeline × Machine => s.1.halted) stops step limit 0 s
  simp only [run_eq, e, Nat.zero_add]

theorem breakpoints_step (s : Pipeline × Machine) : (step s).1.breakpoints = s.1.breakpoints := by
  rw [step_eq]

theorem stopsFirst_run (s : Pipeline × Machine) :
    StopsFirst (·.1.halted) (·.1.pc ∈ s.1.breakpoints) step run s := by
  rw [run_eq]
  refine stopsFirst_runFrom (·.1.pc) (·.1.breakpoints) (fun t => ?_) breakpoints_step s
  simp [stops]

theorem Call.perform_of_clocked {c : Call} (h : c.clocked) (s : Pipeline × Machine) :
    c.perform s = Pipeline.step^[c.cycles s] s := by
  cases c with
  | step => rfl
  | cycle =>
    simp only [perform, cycles, Pipeline.cycle]
    split <;> rfl
  | run limit => exact run_eq_iterate limit s
  | _ => simp [clocked] at h

theorem Call.trail_of_not_clocked {c : Call} (h : c.clocked = false) (s : Pipeline × Machine) : c.trail s = [] := by
  cases c <;> first | rfl | cases h

/-! ## What every call keeps -/

section Induction

variable {P : Pipeline × Machine → Prop} (kept : ∀ s, P s → P (Pipeline.step s))

include kept

theorem Call.perform_induction {c : Call} {s : Pipeline × Machine} (between : c.clocked = false → P (c.perform s))
    (h : P s) : (∀ t ∈ c.trail s, P t) ∧ P (c.perform s) := by
  cases hc : c.clocked with
  | true =>
    rw [perform_of_clocked hc]
    refine ⟨fun t ht => ?_, Function.Iterate.rec P h kept _⟩
    obtain ⟨k, -, rfl⟩ := List.mem_map.mp ht
    exact Function.Iterate.rec P h kept _
  | false =>
    rw [trail_of_not_clocked hc]
    exact ⟨fun t ht => absurd ht List.not_mem_nil, between hc⟩

theorem perform_induction {calls : List Call}
    (between : ∀ c ∈ calls, c.clocked = false → ∀ s, P s → P (c.perform s)) {s : Pipeline × Machine} (h : P s) :
    (∀ t ∈ trail calls s, P t) ∧ P (perform calls s) := by
  induction calls generalizing s with
  | nil => exact ⟨fun t ht => absurd ht List.not_mem_nil, h⟩
  | cons c calls ih =>
    obtain ⟨during, after⟩ := Call.perform_induction kept (fun hc => between c List.mem_cons_self hc s h) h
    obtain ⟨during', after'⟩ := ih (fun d hd => between d (List.mem_cons_of_mem c hd)) after
    refine ⟨fun t ht => ?_, after'⟩
    rcases List.mem_append.mp ht with ht | ht
    · exact during t ht
    · exact during' t ht

end Induction

/-! ## What no call changes -/

theorem history_recordStages (t : Trace) (cycle : Nat) (b : Board) (l : Latches) (held : Bool)
    (retired : Option Accessed) : (recordStages t cycle b l held retired).history = t.history := by
  obtain ⟨ifId, idEx, exMem, memWb⟩ := l
  unfold recordStages
  cases ifId <;> cases idEx <;> cases exMem <;> cases memWb <;> cases retired <;>
    simp only [Option.elim, Trace.history_record]

theorem history_step (s : Pipeline × Machine) : (step s).1.trace.history = s.1.trace.history := by
  rw [step_eq]
  simp only []
  split
  · exact history_recordStages _ _ _ _ _ _
  · rfl

theorem build_step (s : Pipeline × Machine) : (step s).2.board.build = s.2.board.build := by
  have access : (accessed s).build = s.2.board.build := by
    unfold accessed accessMemory
    cases s.1.latches.exMem with
    | none => rfl
    | some e => exact Bus.build_access _ _ _ _
  rw [step_board]
  split
  · exact access
  · rw [Bus.build_fetch, access]

theorem Call.history_perform (c : Call) (s : Pipeline × Machine) :
    (c.perform s).1.trace.history = s.1.trace.history := by
  refine (perform_induction (P := fun t => t.1.trace.history = s.1.trace.history) (fun t ht => ?_) (fun hc => ?_) rfl).2
  · rw [history_step, ht]
  · cases c <;> first | rfl | cases hc

theorem Call.build_perform (c : Call) (s : Pipeline × Machine) : (c.perform s).2.board.build = s.2.board.build := by
  refine (perform_induction (P := fun t => t.2.board.build = s.2.board.build) (fun t ht => ?_) (fun hc => ?_) rfl).2
  · rw [build_step, ht]
  · cases c <;> first | rfl | cases hc

end Pipeline

end FiveStageArm
