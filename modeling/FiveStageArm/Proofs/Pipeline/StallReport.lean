/-
  FiveStageArm.Proofs.Pipeline.StallReport — which instruction the hazard report names as the
  producer when decode has to wait. The report is read as it is printed: one line names the
  producer and the next what waits for it.

  Without forwarding decode waits for a writer in ID/EX or in EX/MEM, and the report looks in
  ID/EX only. So while the writer is in EX/MEM it names what has come between the two, or
  nothing where that is a bubble (`stall_report_unrelated`).

  Proved: whenever decode waits there is a producer, the report says what waits for it, and
  the producer it names is one exactly when the instruction in ID/EX is, which with forwarding
  it always is (`stall_report`).
-/

import FiveStageArm.Pipeline.Display
import FiveStageArm.Proofs.Isa.Listing
import FiveStageArm.Proofs.Pipeline.Operands
import FiveStageArm.Proofs.Pipeline.Structure

namespace FiveStageArm

namespace Pipeline

/-- The instructions that what is in IF/ID may have to wait for. -/
def ahead (l : Latches) : List Instruction :=
  (l.idEx.map (·.instruction)).toList ++ (l.exMem.map (·.instruction)).toList

/-- `i` writes a register that `next` reads. -/
def Produces (i : Instruction) (next : Operation) : Prop := i.regWrite ∧ next.reads i.rd

instance (i : Instruction) (next : Operation) : Decidable (Produces i next) :=
  inferInstanceAs (Decidable (_ ∧ _))

/-- What a report says after `label`, on the first line that has it. -/
def reported (label report : String) : Option String :=
  (Text.lines report).findSome? (Text.after? ("    " ++ label ++ ": "))

/-! ## Reading the report -/

/-- The line that says that decode waits. -/
def stallTitle (forwarding : Bool) : String :=
  "  " ++ (if forwarding then "LOAD-USE" else "RAW") ++ " HAZARD: stall required"

section

variable {config : Config} {l : Latches}

theorem lines_hazardText (stall : (Decision.evaluate config l).stall) :
    ∃ forwards, Text.lines (hazardText config l) =
      "Hazard Unit Status:" :: stallTitle config.forwarding
        :: ("    Producer: " ++ l.idEx.elim "" (·.instruction.text))
        :: ("    Next: " ++ l.ifId.elim "" (·.decode.text)) :: Text.lines forwards := by
  have title : Text.OneLine (stallTitle config.forwarding) := by
    cases config.forwarding <;> decide
  have producer : Text.OneLine ("    Producer: " ++ l.idEx.elim "" (·.instruction.text)) := by
    refine Text.oneLine_append.mpr ⟨by decide, ?_⟩
    cases l.idEx with
    | none => decide
    | some d => exact d.instruction.oneLine_text
  have next : Text.OneLine ("    Next: " ++ l.ifId.elim "" (·.decode.text)) := by
    refine Text.oneLine_append.mpr ⟨by decide, ?_⟩
    cases l.ifId with
    | none => decide
    | some f => exact f.decode.oneLine_text
  refine ⟨l.idEx.elim "" fun e => forwardsText e.instruction.operation (Decision.evaluate config l).bypass, ?_⟩
  rw [← Text.lines_line_append next, ← Text.lines_line_append producer, ← Text.lines_line_append title,
    ← Text.lines_line_append (s := "Hazard Unit Status:") (by decide)]
  unfold hazardText stallText
  simp only [stall, if_true, Bool.not_true, Bool.false_and, Bool.false_eq_true, if_false, String.append_empty]
  simp only [stallTitle, Text.line, String.append_assoc]
  rfl

/-- Neither label stands above its line. -/
theorem findSome?_hazardText (stall : (Decision.evaluate config l).stall) {label : String}
    (one : label = "    Producer: " ∨ label = "    Next: ") :
    ∃ forwards, (Text.lines (hazardText config l)).findSome? (Text.after? label) =
      (("    Producer: " ++ l.idEx.elim "" (·.instruction.text)) :: ("    Next: " ++ l.ifId.elim "" (·.decode.text))
        :: Text.lines forwards).findSome? (Text.after? label) := by
  obtain ⟨forwards, printed⟩ := lines_hazardText stall
  have heading : Text.after? label "Hazard Unit Status:" = none := by
    rcases one with rfl | rfl <;> decide
  have title (forwarding : Bool) : Text.after? label (stallTitle forwarding) = none := by
    rcases one with rfl | rfl <;> cases forwarding <;> decide
  refine ⟨forwards, ?_⟩
  rw [printed, List.findSome?_cons, heading, List.findSome?_cons, title]

theorem reported_producer (stall : (Decision.evaluate config l).stall) :
    reported "Producer" (hazardText config l) = some (l.idEx.elim "" (·.instruction.text)) := by
  obtain ⟨forwards, found⟩ := findSome?_hazardText stall (.inl rfl)
  show (Text.lines _).findSome? (Text.after? "    Producer: ") = _
  rw [found, List.findSome?_cons, Text.after?_append]

theorem reported_next (stall : (Decision.evaluate config l).stall) :
    reported "Next" (hazardText config l) = some (l.ifId.elim "" (·.decode.text)) := by
  obtain ⟨forwards, found⟩ := findSome?_hazardText stall (.inr rfl)
  have producer (s : String) : Text.after? "    Next: " ("    Producer: " ++ s) = none := by
    rw [Text.after?, String.toList_append]
    rfl
  show (Text.lines _).findSome? (Text.after? "    Next: ") = _
  rw [found, List.findSome?_cons, producer, List.findSome?_cons, Text.after?_append]

end

/-! ## The producers there are -/

theorem mem_ahead {l : Latches} {i : Instruction} :
    i ∈ ahead l ↔ (∃ d ∈ l.idEx, d.instruction = i) ∨ ∃ e ∈ l.exMem, e.instruction = i := by
  simp only [ahead, List.mem_append, Option.mem_toList, Option.mem_def, Option.map_eq_some_iff]

theorem produces_of_loadUse {idEx : Option Decoded} {next : Operation} (h : loadUse idEx next) :
    ∃ d ∈ idEx, Produces d.instruction next := by
  obtain ⟨d, hd, load⟩ := (Option.any_eq_true ..).mp h
  simp only [Bool.and_eq_true] at load
  exact ⟨d, hd, regWrite_of_memRead load.1, load.2⟩

theorem produces_of_rawHazard {l : Latches} {next : Operation} (h : rawHazard l.idEx l.exMem next) :
    ∃ i ∈ ahead l, Produces i next := by
  rcases (Bool.or_eq_true ..).mp h with h | h
  · obtain ⟨d, hd, writes⟩ := (Option.any_eq_true ..).mp h
    exact ⟨d.instruction, mem_ahead.mpr (.inl ⟨d, hd, rfl⟩), (Bool.and_eq_true ..).mp writes⟩
  · obtain ⟨e, he, writes⟩ := (Option.any_eq_true ..).mp h
    exact ⟨e.instruction, mem_ahead.mpr (.inr ⟨e, he, rfl⟩), (Bool.and_eq_true ..).mp writes⟩

theorem produces_of_stall {config : Config} {l : Latches} (stall : (Decision.evaluate config l).stall) :
    ∃ f ∈ l.ifId, (∃ i ∈ ahead l, Produces i f.decode.operation) ∧
      (config.forwarding → ∃ d ∈ l.idEx, Produces d.instruction f.decode.operation) := by
  obtain ⟨-, waits⟩ := (Bool.and_eq_true ..).mp stall
  obtain ⟨f, hf, hazard⟩ := (Option.any_eq_true ..).mp waits
  refine ⟨f, hf, ?_⟩
  cases forwarding : config.forwarding with
  | true =>
    simp only [forwarding, if_true] at hazard
    obtain ⟨d, hd, produces⟩ := produces_of_loadUse hazard
    exact ⟨⟨d.instruction, mem_ahead.mpr (.inl ⟨d, hd, rfl⟩), produces⟩, fun _ => ⟨d, hd, produces⟩⟩
  | false =>
    simp only [forwarding, Bool.false_eq_true, if_false] at hazard
    exact ⟨produces_of_rawHazard hazard, fun on => by cases on⟩

/-! ## The producer named -/

/-- What is in ID/EX writes what an instruction of the same text past it writes. -/
theorem produces_of_text {d : Decoded} {i : Instruction} {next : Operation} (decoded : IsDecoded d.instruction)
    (gated : Gated i) (same : i.text = d.instruction.text) (h : Produces i next) : Produces d.instruction next := by
  obtain ⟨flags, e⟩ := gated.gated
  have range : i.operation.InRange := by
    rw [e]
    exact Decode.inRange_operation i.raw
  have range' : d.instruction.operation.InRange := by
    rw [decoded]
    exact Decode.inRange_operation d.instruction.raw
  obtain ⟨writes, rd⟩ := Instruction.writes_of_text range range' same
  have active := ((Bool.and_eq_true ..).mp h.1).2
  refine ⟨?_, rd active ▸ h.2⟩
  have passed : d.instruction.passed := by
    rw [decoded]
    rfl
  exact (Bool.and_eq_true ..).mpr ⟨passed, writes ▸ active⟩

theorem named_iff {p : Pipeline} (h : Intact p) (next : Operation) :
    (∃ i ∈ ahead p.latches, Produces i next ∧ p.latches.idEx.elim "" (·.instruction.text) = i.text) ↔
      ∃ d ∈ p.latches.idEx, Produces d.instruction next := by
  constructor
  · rintro ⟨i, hi, produces, named⟩
    rcases mem_ahead.mp hi with ⟨d, hd, rfl⟩ | ⟨e, he, rfl⟩
    · exact ⟨d, hd, produces⟩
    · cases hd : p.latches.idEx with
      | none =>
        rw [hd] at named
        exact absurd named.symm e.instruction.text_ne_empty
      | some d =>
        rw [hd] at named
        exact ⟨d, rfl, produces_of_text (h.idEx d hd).1 (h.exMem e he).1 named.symm produces⟩
  · rintro ⟨d, hd, produces⟩
    refine ⟨d.instruction, mem_ahead.mpr (.inl ⟨d, hd, rfl⟩), produces, ?_⟩
    rw [Option.mem_def.mp hd]
    rfl

/-- What the report of a stall is worth with `f` waiting in IF/ID. There is a producer, but the
    one named is whatever is in ID/EX; with forwarding it is always one. -/
structure Reports (config : Config) (l : Latches) (f : Fetched) : Prop where
  next : reported "Next" (hazardText config l) = some f.decode.text
  producer : reported "Producer" (hazardText config l) = some (l.idEx.elim "" (·.instruction.text))
  produced : ∃ i ∈ ahead l, Produces i f.decode.operation
  named : (∃ i ∈ ahead l, Produces i f.decode.operation ∧
      reported "Producer" (hazardText config l) = some i.text) ↔
    ∃ d ∈ l.idEx, Produces d.instruction f.decode.operation
  forwarding : config.forwarding → ∃ d ∈ l.idEx, Produces d.instruction f.decode.operation

theorem stall_report_of_intact {p : Pipeline} (h : Intact p) {config : Config}
    (stall : (Decision.evaluate config p.latches).stall) :
    ∃ f ∈ p.latches.ifId, Reports config p.latches f := by
  obtain ⟨f, hf, producers, forwarded⟩ := produces_of_stall stall
  have next := reported_next stall
  rw [Option.mem_def.mp hf] at next
  refine ⟨f, hf, next, reported_producer stall, producers, ?_, forwarded⟩
  rw [reported_producer stall]
  simp only [Option.some.injEq]
  exact named_iff h f.decode.operation

/-! ## Any calls -/

theorem intact_of_reached {m : Machine} {calls : List Call} {t : Pipeline × Machine}
    (reached : t ∈ trail calls (.fresh, m) ∨ t = perform calls (.fresh, m)) : Intact t.1 := by
  have between : ∀ c ∈ calls, c.clocked = false → ∀ s : Pipeline × Machine, Intact s.1 → Intact (c.perform s).1 :=
    fun _ _ hc _ hs => hs.perform hc
  obtain ⟨during, after⟩ := perform_induction (P := fun s => Intact s.1) (fun _ => intact_step) between
    (s := (.fresh, m)) intact_fresh
  rcases reached with ht | rfl
  · exact during t ht
  · exact after

/-- In any state that calls lead to, the report of a stall names the instruction that waits, and
    a producer of it exactly when the one in ID/EX is. -/
theorem stall_report (m : Machine) (calls : List Call) (t : Pipeline × Machine)
    (reached : t ∈ trail calls (.fresh, m) ∨ t = perform calls (.fresh, m)) (config : Config)
    (stall : (Decision.evaluate config t.1.latches).stall) :
    ∃ f ∈ t.1.latches.ifId, Reports config t.1.latches f :=
  stall_report_of_intact (intact_of_reached reached) stall

/-- The first `n` cycles of a program without forwarding. -/
def unforwarded (program : List Word) (n : Nat) : Pipeline × Machine :=
  perform (.configure ({ · with forwarding := false }) :: List.replicate n .step)
    (.fresh, ⟨Board.empty.loadWords 0 program, .zero⟩)

/-- `ADD R2, R1, #1` waits for the `MOV R1, #5` in ID/EX. -/
theorem stall_report_directlyBehind :
    let t := unforwarded [0xE3A01005, 0xE2812001] 2
    let report := hazardText t.1.config t.1.latches
    (Decision.evaluate t.1.config t.1.latches).stall ∧ reported "Producer" report = some "MOV R1, #0x5" ∧
      ∃ f ∈ t.1.latches.ifId, reported "Next" report = some f.decode.text ∧
        ∃ i ∈ ahead t.1.latches, Produces i f.decode.operation ∧ reported "Producer" report = some i.text := by
  intro t report
  have stall : (Decision.evaluate t.1.config t.1.latches).stall := by decide +kernel
  obtain ⟨f, hf, reports⟩ := stall_report _ _ t (.inr rfl) t.1.config stall
  have behind : ∀ f ∈ t.1.latches.ifId, ∃ d ∈ t.1.latches.idEx, Produces d.instruction f.decode.operation := by
    decide +kernel
  exact ⟨stall, by decide +kernel, f, hf, reports.next, reports.named.mpr (behind f hf)⟩

/-- It waits for the `MOV R1, #5` in EX/MEM, and `MOV R3, #1` between the two is named. -/
theorem stall_report_unrelated :
    let t := unforwarded [0xE3A01005, 0xE3A03001, 0xE2812001] 3
    let report := hazardText t.1.config t.1.latches
    (Decision.evaluate t.1.config t.1.latches).stall ∧ reported "Producer" report = some "MOV R3, #0x1" ∧
      ∀ f ∈ t.1.latches.ifId, reported "Next" report = some f.decode.text ∧
        ¬∃ i ∈ ahead t.1.latches, Produces i f.decode.operation ∧ reported "Producer" report = some i.text := by
  decide +kernel

end Pipeline

end FiveStageArm
