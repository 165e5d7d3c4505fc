/-
  FiveStageArm.Proofs.Pipeline.Records — the pipeline on flat records goes through the states
  that the pipeline goes through. `flatten` writes a state's latches out: an empty one as a new
  record, a filled one as the fields of what is in it.

  The records know nothing of latches being empty. What makes the two agree is that a flush
  leaves what a new record has, that every place a record is read tests its valid bit first,
  and that an operand is forwarded from valid records only (`supplied_evaluate`). Conditions are
  the one thing that records resolve in place: what execute takes in must not have had its
  signals cleared before, hence `Unresolved`.

  Proved, stage by stage and then for whole cycles: a cycle of the records is a cycle of the
  pipeline written out (`step_flatten`), and so is a run of them (`run_flatten`) and any
  sequence of calls with every state on the way (`perform_flatten`).
-/

import FiveStageArm.Pipeline.Fields
import FiveStageArm.Proofs.Isa.Control
import FiveStageArm.Proofs.Pipeline.Calls

namespace FiveStageArm

theorem Bus.accessFields_fields {n : Nat} (b : Bus n) (i : Instruction) (a : Address) (stored : Word) :
    b.accessFields i.fields a stored = b.access i a stored := by
  obtain ⟨raw, pc, cond, o, passed⟩ := i
  cases o using Operation.byShape <;> rfl

namespace Pipeline

/-! ## Decisions -/

section Decisions

variable (l : Latches)

theorem loadUse_fields (i : Instruction) : l.fields.loadUse i.fields = loadUse l.idEx i.operation := by
  unfold LatchFields.loadUse loadUse Latches.fields
  cases l.idEx with
  | none => rfl
  | some d => simp [Decoded.fields, Instruction.rd]

theorem rawHazard_fields (i : Instruction) : l.fields.rawHazard i.fields = rawHazard l.idEx l.exMem i.operation := by
  unfold LatchFields.rawHazard rawHazard Latches.fields
  cases l.idEx <;> cases l.exMem <;> simp [Decoded.fields, Executed.fields, Instruction.rd]

theorem mustStall_fields (config : Config) : l.fields.mustStall config = mustStall config l := by
  unfold LatchFields.mustStall mustStall
  simp only [loadUse_fields, rawHazard_fields]
  cases hi : l.ifId <;> cases config.hazardDetection <;> simp [Latches.fields, hi, Fetched.fields, Fetched.decode]

theorem sourceOf_fields (r : Reg) : l.fields.sourceOf r = sourceOf r l.exMem l.memWb := by
  unfold LatchFields.sourceOf sourceOf Latches.fields
  cases l.exMem <;> cases l.memWb <;> simp [Executed.fields, Accessed.fields, Instruction.rd]

theorem evaluate_fields (config : Config) : l.fields.evaluate config = Decision.evaluate config l := by
  unfold LatchFields.evaluate Decision.evaluate
  simp only [mustStall_fields, sourceOf_fields]
  cases hd : l.idEx <;> cases config.forwarding <;>
    simp [Latches.fields, hd, Decoded.fields, Bypass.of]

end Decisions

/-! ## The stages -/

section Stages

variable (l : Latches)

theorem writeBack_fields (s : Registers) : l.fields.memWb.writeBack s = stageWrite s l.memWb := by
  unfold AccessedFields.writeBack stageWrite Latches.fields
  cases l.memWb with
  | none => rfl
  | some a => simp [Accessed.fields, AccessedFields.value, Accessed.value, Instruction.rd]

theorem access_fields (b : Board) :
    l.fields.exMem.access b = ((accessMemory b l.exMem).1.elim {} (·.fields), (accessMemory b l.exMem).2) := by
  unfold ExecutedFields.access accessMemory Latches.fields
  cases l.exMem with
  | none => rfl
  | some e => simp [Executed.fields, Accessed.fields, Bus.accessFields_fields]

/-- A latch that an operand is taken from has an instruction in it. -/
structure Supplied (source : Source) : Prop where
  exMem : source = .exMem → l.exMem.isSome
  memWb : source = .memWb → l.memWb.isSome

variable {l}

theorem supplied_latched : Supplied l .latched := ⟨nofun, nofun⟩

theorem supplied_sourceOf (r : Reg) : Supplied l (sourceOf r l.exMem l.memWb) := by
  have filled {α : Type} {latch : Option α} {p : α → Bool} (h : latch.any p) : latch.isSome := by
    obtain ⟨a, ha, -⟩ := (Option.any_eq_true ..).mp h
    exact Option.isSome_iff_exists.mpr ⟨a, ha⟩
  unfold sourceOf
  split
  · exact supplied_latched
  · split
    · rename_i writes
      exact ⟨fun _ => filled writes, nofun⟩
    · split
      · rename_i writes
        exact ⟨nofun, fun _ => filled writes⟩
      · exact supplied_latched

theorem supplied_evaluate (config : Config) :
    ∀ source ∈ (Decision.evaluate config l).bypass.toList, Supplied l source := by
  have nothing : ∀ source ∈ Bypass.none.toList, Supplied l source := by
    simp [Bypass.toList, Bypass.none, supplied_latched]
  have chosen (used : Bool) (r : Reg) : Supplied l (if used then sourceOf r l.exMem l.memWb else .latched) := by
    split
    · exact supplied_sourceOf r
    · exact supplied_latched
  unfold Decision.evaluate
  cases config.forwarding with
  | false => exact nothing
  | true =>
    cases l.idEx with
    | none => exact nothing
    | some d => simp [Bypass.toList, Bypass.of, chosen]

theorem operandFrom_fields {source : Source} (h : Supplied l source) (latched : Word) :
    l.fields.operandFrom source latched = operandFrom l source latched := by
  unfold LatchFields.operandFrom operandFrom Latches.fields
  cases source with
  | latched => rfl
  | exMem =>
    obtain ⟨e, he⟩ := Option.isSome_iff_exists.mp (h.exMem rfl)
    rw [he]
    rfl
  | memWb =>
    obtain ⟨a, ha⟩ := Option.isSome_iff_exists.mp (h.memWb rfl)
    simp [ha, Accessed.fields, AccessedFields.value, Accessed.value]

theorem forward_fields {b : Bypass} (h : ∀ source ∈ b.toList, Supplied l source) (ops : Operands) :
    l.fields.forward b ops = forward l b ops := by
  simp only [Bypass.toList, List.forall_mem_cons] at h
  obtain ⟨rn, rm, rs, rd, -⟩ := h
  unfold LatchFields.forward forward
  rw [operandFrom_fields rn, operandFrom_fields rm, operandFrom_fields rs, operandFrom_fields rd]

theorem execute_fields (unresolved : ∀ d ∈ l.idEx, d.instruction.passed) {b : Bypass}
    (h : ∀ source ∈ b.toList, Supplied l source) (s : Registers) :
    l.fields.execute b s = ((executeStage l b s).1.elim {} (·.fields), (executeStage l b s).2) := by
  unfold LatchFields.execute executeStage executeOne
  cases hd : l.idEx with
  | none => simp [Latches.fields, hd]
  | some d =>
    have gated := Instruction.gate_fields (unresolved d hd) s.flags
    have record : l.fields.idEx = d.fields := by simp [Latches.fields, hd]
    rw [record]
    simp only [Decoded.fields, gated, forward_fields h, Instruction.execute_fields, Instruction.setFlags_fields]
    rfl

theorem decode_fields (s : Registers) :
    l.fields.ifId.decode s = (l.ifId.map (decodeStage s)).elim {} (·.fields) := by
  unfold FetchedFields.decode Latches.fields
  cases l.ifId with
  | none => rfl
  | some f =>
    simp only [Option.elim_some, Fetched.fields, Instruction.rn_fields, Instruction.rm_fields, Instruction.rs_fields,
      Instruction.rd_fields]
    rfl

end Stages

/-! ## One cycle -/

/-- The same state with its latches written out. -/
def flatten (s : Pipeline × Machine) : Flat × Machine := (s.1.flat, s.2)

/-- Nothing in ID/EX has had its condition resolved. -/
def Unresolved (s : Pipeline × Machine) : Prop := ∀ d ∈ s.1.latches.idEx, d.instruction.passed

theorem step_flatten {s : Pipeline × Machine} (h : Unresolved s) : Flat.step (flatten s) = flatten (step s) := by
  obtain ⟨p, board, registers⟩ := s
  have taken (x : Option Executed) :
      ((x.elim {} (·.fields) : ExecutedFields).valid && (x.elim {} (·.fields) : ExecutedFields).branchTaken) =
        x.any (·.branchTaken) := by
    cases x <;> rfl
  have target (x : Option Executed) :
      (x.elim {} (·.fields) : ExecutedFields).branchTarget = x.elim 0 (·.branchTarget) := by
    cases x <;> rfl
  have halts : (p.latches.fields.memWb.valid && p.latches.fields.memWb.instruction.isSelfBranch) =
      p.latches.memWb.any (·.instruction.isSelfBranch) := by
    unfold Latches.fields
    cases p.latches.memWb <;> simp [Accessed.fields]
  simp only [Flat.step, flatten, flat, evaluate_fields, writeBack_fields, access_fields,
    execute_fields h (supplied_evaluate _), decode_fields, step, taken, target, halts]
  generalize (Decision.evaluate p.config p.latches).resolve _ = d
  -- a flush leaves what a new record has, so each action makes of the records what it makes of the latches
  obtain ⟨stall, flush, b⟩ := d
  cases stall <;> cases flush <;> rfl

theorem unresolved_fresh (m : Machine) : Unresolved (.fresh, m) := by
  intro d hd
  cases hd

theorem unresolved_step (s : Pipeline × Machine) : Unresolved (step s) := by
  intro d hd
  obtain ⟨f, -, -, -, rfl⟩ := of_mem_step_idEx hd
  rfl

theorem cycle_flatten {s : Pipeline × Machine} (h : Unresolved s) : Flat.cycle (flatten s) = flatten (cycle s) := by
  have halted : (flatten s).1.halted = s.1.halted := rfl
  unfold Flat.cycle cycle
  rw [halted, step_flatten h, apply_ite flatten]

theorem unresolved_cycle {s : Pipeline × Machine} (h : Unresolved s) : Unresolved (cycle s) := by
  unfold cycle
  split
  · exact h
  · exact unresolved_step s

/-! ## Any calls -/

namespace Call

def performFlat (s : Flat × Machine) : Call → Flat × Machine
  | step => Flat.step s
  | cycle => Flat.cycle s
  | run limit => (Flat.run limit s).2
  | setPc a => (s.1.setPc a, s.2)
  | reset => s.1.reset s.2
  | configure change => ({ s.1 with config := change s.1.config }, s.2)
  | setBreakpoints change => ({ s.1 with breakpoints := change s.1.breakpoints }, s.2)

def cyclesFlat (s : Flat × Machine) : Call → Nat
  | step => 1
  | cycle => if s.1.halted then 0 else 1
  | run limit => (Flat.run limit s).1
  | _ => 0

/-- The states in which the cycles of the call end. -/
def trailFlat (s : Flat × Machine) (c : Call) : List (Flat × Machine) :=
  (List.range (c.cyclesFlat s)).map fun k => Flat.step^[k + 1] s

end Call

namespace Flat

def perform (calls : List Call) (s : Flat × Machine) : Flat × Machine := calls.foldl Call.performFlat s

/-- The states in which the cycles of the calls end. -/
def trail : List Call → Flat × Machine → List (Flat × Machine)
  | [], _ => []
  | c :: calls, s => c.trailFlat s ++ trail calls (c.performFlat s)

end Flat

section Calls

variable {s : Pipeline × Machine} (h : Unresolved s)

include h

theorem iterate_flatten (k : Nat) : Unresolved (step^[k] s) ∧ Flat.step^[k] (flatten s) = flatten (step^[k] s) := by
  induction k with
  | zero => exact ⟨h, rfl⟩
  | succ k ih =>
    rw [Function.iterate_succ_apply', Function.iterate_succ_apply', ih.2]
    exact ⟨unresolved_step _, step_flatten ih.1⟩

theorem run_flatten (limit : Nat) : Flat.run limit (flatten s) = ((run limit s).1, flatten (run limit s).2) := by
  refine runFrom_map (·.1.halted) stops cycle flatten (P := Unresolved) (fun _ => unresolved_cycle) ?_ ?_
    (fun _ => cycle_flatten) limit 0 h
  all_goals exact fun _ _ => rfl

theorem Call.unresolved_perform (c : Call) : Unresolved (c.perform s) := by
  refine (Call.perform_induction (fun t _ => unresolved_step t) (fun between => ?_) h).2
  cases c with
  | setPc a | reset => exact fun d hd => by cases hd
  | configure change | setBreakpoints change => exact h
  | step | cycle | run limit => cases between

theorem Call.perform_flatten (c : Call) : c.performFlat (flatten s) = flatten (c.perform s) := by
  cases c with
  | step => exact step_flatten h
  | cycle => exact cycle_flatten h
  | run limit => exact congrArg Prod.snd (run_flatten h limit)
  | setPc a | reset | configure change | setBreakpoints change => rfl

theorem Call.trail_flatten (c : Call) : c.trailFlat (flatten s) = (c.trail s).map flatten := by
  have cycles : c.cyclesFlat (flatten s) = c.cycles s := by
    cases c with
    | run limit => exact congrArg Prod.fst (run_flatten h limit)
    | _ => rfl
  unfold trailFlat trail
  rw [cycles, List.map_map]
  exact List.map_congr_left fun k _ => (iterate_flatten h (k + 1)).2

/-- Written out or not, the pipeline goes through the same states. -/
theorem perform_flatten (calls : List Call) :
    Flat.trail calls (flatten s) = (trail calls s).map flatten ∧
      Flat.perform calls (flatten s) = flatten (perform calls s) := by
  induction calls generalizing s with
  | nil => exact ⟨rfl, rfl⟩
  | cons c calls ih =>
    obtain ⟨during, after⟩ := ih (c.unresolved_perform h)
    rw [← c.perform_flatten h] at during after
    refine ⟨?_, after⟩
    rw [Flat.trail, c.trail_flatten h, during, trail, List.map_append]

end Calls

end Pipeline

end FiveStageArm
