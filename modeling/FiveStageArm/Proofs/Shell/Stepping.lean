/-
  FiveStageArm.Proofs.Shell.Stepping — `step` and `run` with a number. Both take that many
  steps of the core that runs and break off where it halts or comes to a breakpoint. `step`
  prints on the way, and so empties the console between the steps.

  Proved:
  - `advance_drain`, `steps_drained`: nothing but the printed text depends on when the
    console is emptied.
  - `parse_count`: a line of two words, the second a number, is read as its command.
  - `run_stops_first`: a run of either core ends where it first may, and `step` and `run`
    with the same number lead from any session with a program to the same session.
-/

import FiveStageArm.Proofs.Bus.Console
import FiveStageArm.Proofs.Pipeline.Calls
import FiveStageArm.Proofs.Shell.Looking
import FiveStageArm.Proofs.Shell.Numbers
import FiveStageArm.Proofs.SingleCycle

namespace FiveStageArm.Shell

namespace Session

/-! ## One step after another -/

variable (s : Session)

theorem runFor_eq (limit : Nat) : s.runFor limit = runFrom Session.halted Session.stops advance limit 0 s := by
  obtain ⟨machine, single, pipeline, image, mode⟩ := s
  cases mode with
  | singleCycle =>
    refine (runFrom_map (·.1.halted) SingleCycle.stops SingleCycle.step
      (fun t => (⟨t.2, t.1, pipeline, image, .singleCycle⟩ : Session)) (P := fun _ => True) (fun _ _ => trivial) ?_ ?_ ?_
      limit 0 (s := (single, machine)) trivial).symm
    all_goals exact fun _ _ => rfl
  | pipeline =>
    refine (runFrom_map (·.1.halted) Pipeline.stops Pipeline.cycle
      (fun t => (⟨t.2, single, t.1, image, .pipeline⟩ : Session)) (P := fun _ => True) (fun _ _ => trivial) ?_ ?_ ?_
      limit 0 (s := (pipeline, machine)) trivial).symm
    all_goals exact fun _ _ => rfl

theorem advance_of_halted (h : s.halted) : s.advance = s := by
  obtain ⟨machine, single, pipeline, image, mode⟩ := s
  cases mode with
  | singleCycle => simp only [advance, SingleCycle.step_of_halted (single, machine) h]
  | pipeline =>
    have still : Pipeline.cycle (pipeline, machine) = (pipeline, machine) := if_pos h
    simp only [advance, still]

theorem stops_of_halted (h : s.halted) : s.stops := by
  obtain ⟨machine, single, pipeline, image, mode⟩ := s
  cases mode <;> exact Bool.or_eq_true_iff.mpr (Or.inl h)

/-! ## The console -/

/-- The session, had `l` been put on the console before everything else. -/
def earlier (l : List Byte) : Session := { s with machine := s.machine.earlier l }

theorem advance_earlier (l : List Byte) : (s.earlier l).advance = s.advance.earlier l := by
  obtain ⟨machine, single, pipeline, image, mode⟩ := s
  cases mode with
  | singleCycle => simp only [advance, earlier, SingleCycle.step_earlier]
  | pipeline => simp only [advance, earlier, Pipeline.cycle_earlier]

/-- What is on the console before a step is not missed. -/
theorem advance_drain : s.drain.2.advance.drain.2 = s.advance.drain.2 :=
  calc s.drain.2.advance.drain.2
      = (s.drain.2.advance.earlier s.board.console).drain.2 := rfl
    _ = s.advance.drain.2 := by rw [← advance_earlier]; rfl

theorem steps_drained (shown : String) (count taken : Nat) :
    (s.drain.2.steps shown count).2 = (runFrom Session.halted Session.stops advance count taken s).2.drain.2 := by
  induction count generalizing s shown taken with
  | zero => rfl
  | succ count ih =>
    have same : s.advance.drain.2.stops = s.advance.stops := rfl
    simp only [steps, runFrom, advance_drain, same]
    by_cases hh : s.halted
    · rw [if_pos hh, advance_of_halted s hh, if_pos (stops_of_halted s hh)]
    rw [if_neg hh]
    by_cases hs : s.advance.stops
    · rw [if_pos hs, if_pos hs]
    · rw [if_neg hs, if_neg hs]
      exact ih s.advance _ _

/-- One step is enough to empty the console. -/
theorem steps_eq_runFor (shown : String) {count : Nat} (h : 1 ≤ count) :
    (s.steps shown count).2 = (s.runFor count).2.drain.2 := by
  obtain ⟨count, rfl⟩ := Nat.exists_eq_add_of_le' h
  rw [runFor_eq, ← steps_drained s shown (count + 1) 0]
  simp only [steps, advance_drain]
  split
  · rfl
  · rw [steps_drained _ _ _ 0, steps_drained _ _ _ 0]

end Session

/-! ## The commands -/

theorem splitWords_append {cs : List Char} (unbroken : ∀ c ∈ cs, Text.isBlank c = false) (word rest : List Char) :
    splitWords word (cs ++ rest) = splitWords (cs.reverse ++ word) rest := by
  induction cs generalizing word with
  | nil => rfl
  | cons c cs ih =>
    obtain ⟨hc, hcs⟩ := List.forall_mem_cons.mp unbroken
    rw [List.cons_append, splitWords, if_neg (by simp [hc]), ih hcs, List.reverse_cons, List.append_assoc]
    rfl

theorem words_pair (name word : String) (hn : ∀ c ∈ name.toList, Text.isBlank c = false) (hn' : name.toList ≠ [])
    (hw : ∀ c ∈ word.toList, Text.isBlank c = false) (hw' : word.toList ≠ []) :
    words (name ++ " " ++ word) = [name, word] := by
  have last : splitWords [] word.toList = [word] := by
    have h := splitWords_append hw [] []
    rw [List.append_nil, List.append_nil] at h
    simp [h, splitWords, hw']
  have blank : Text.isBlank ' ' = true := rfl
  rw [words, String.toList_append, String.toList_append, List.append_assoc, splitWords_append hn]
  simp [splitWords, hn', last, blank]

theorem Written.ne_nil {cs : List Char} {n : Nat} (h : Written cs n) : cs ≠ [] := by
  cases h with
  | decimal digits => exact digits.1
  | hexadecimal => exact List.cons_ne_nil _ _

theorem number_of_written {word : String} {n : Nat} (h : Written word.toList n) (below : n < two32) :
    number word = .ok (UInt32.ofNat n) := by
  obtain ⟨w, parsed, rfl⟩ := Option.map_eq_some_iff.mp
    ((parseNumber_eq_some_iff word h.unbroken n).mpr ⟨below, Or.inl h⟩)
  rw [number, parsed, UInt32.ofNat_toNat]

section

variable {word : String} {n : Nat} (written : Written word.toList n) (positive : 1 ≤ n) (below : n < two32)

include written below

theorem parse_step : Command.parse ("step " ++ word) = .ok (.step n) := by
  have split : words ("step " ++ word) = ["step", word] :=
    words_pair "step" word (Text.unbroken_of_all (by decide)) (by decide) written.unbroken written.ne_nil
  have same : (UInt32.ofNat n).toNat = n := UInt32.toNat_ofNat_of_lt' below
  rw [parse_of_keyword split (k := .step) (by decide +kernel)]
  simp only [Keyword.parse, numberOr, number_of_written written below, Except.map, same]

include positive

/-- A run of 0 steps is not one. -/
theorem parse_run : Command.parse ("run " ++ word) = .ok (.run n) := by
  have split : words ("run " ++ word) = ["run", word] :=
    words_pair "run" word (Text.unbroken_of_all (by decide)) (by decide) written.unbroken written.ne_nil
  have same : (UInt32.ofNat n).toNat = n := UInt32.toNat_ofNat_of_lt' below
  have some : UInt32.ofNat n ≠ 0 := by
    intro zero
    rw [zero, UInt32.toNat_zero] at same
    omega
  rw [parse_of_keyword split (k := .run) (by decide +kernel)]
  simp only [Keyword.parse, numberOr, number_of_written written below, Except.map, same, if_neg some]

variable {s : Session} {image : Image} (loaded : s.image = some image) (files : Files)

include loaded

theorem respond_step : (s.respond files ("step " ++ word)).session = (s.runFor n).2.drain.2 := by
  rw [Session.respond, parse_step written below, ← s.steps_eq_runFor "" positive]
  simp only [Session.execute, Session.withImage, loaded]

theorem respond_run : (s.respond files ("run " ++ word)).session = (s.runFor n).2.drain.2 := by
  rw [Session.respond, parse_run written positive below]
  simp only [Session.execute, Session.withImage, loaded, Session.run]

end

/-- A run of either core stops in the first state that ends it and can be taken up again there,
    and the two commands that run it do the same. -/
theorem run_stops_first :
    (∀ s : Pipeline × Machine,
      StopsFirst (·.1.halted) (·.1.pc ∈ s.1.breakpoints) Pipeline.step Pipeline.run s) ∧
    (∀ s : SingleCycle × Machine,
      StopsFirst (·.1.halted) (·.1.pc ∈ s.1.breakpoints) SingleCycle.step SingleCycle.run s) ∧
    ∀ (s : Session) (files : Files) (image : Image), s.image = some image →
      ∀ (word : String) (n : Nat), Written word.toList n → 1 ≤ n → n ≤ 2 ^ 32 - 1 →
        (s.respond files ("step " ++ word)).session = (s.respond files ("run " ++ word)).session ∧
        (s.respond files ("run " ++ word)).session = (s.runFor n).2.drain.2 := by
  refine ⟨Pipeline.stopsFirst_run, SingleCycle.stopsFirst_run, ?_⟩
  intro s files image loaded word n written positive most
  have below : n < two32 := by
    rw [two32]
    omega
  have run := respond_run written positive below loaded files
  exact ⟨(respond_step written positive below loaded files).trans run.symm, run⟩

/-- A loop of two instructions, a breakpoint at its first. -/
def looping : Session := (Session.fresh.loadWords [0xE3A01005, 0xEAFFFFFD] 0).2.setBreakpoints fun l => l.add 0

/-- Both commands leave the breakpoint behind and come back to it in four cycles. A run that
    is cut short after one of them takes the other three later. -/
theorem run_stops_first_looping :
    (looping.mode = .pipeline ∧ looping.pc ∈ looping.pipeline.breakpoints) ∧
      (looping.respond (fun _ => none) ("step " ++ "0xA")).session =
        (looping.respond (fun _ => none) ("run " ++ "0xA")).session ∧
      (Pipeline.run (1 + 9) (looping.pipeline, looping.machine)).1 =
        1 + (Pipeline.run 9 (Pipeline.run 1 (looping.pipeline, looping.machine)).2).1 ∧
      (Pipeline.run (1 + 9) (looping.pipeline, looping.machine)).1 = 4 := by
  have ten : Written "0xA".toList 10 :=
    .hexadecimal (Or.inl rfl) ((Text.spells_iff (Nat.le_refl 16) _ _ _).mpr (by decide +kernel))
  have alike := (run_stops_first.2.2 looping (fun _ => none) _ (by rfl) "0xA" 10 ten (by decide) (by decide)).1
  have resumed := (run_stops_first.1 (looping.pipeline, looping.machine)).resumed 1 9 (by decide +kernel)
    (by decide +kernel) (by decide +kernel)
  exact ⟨by decide +kernel, alike, congrArg Prod.fst resumed, by decide +kernel⟩

end FiveStageArm.Shell
