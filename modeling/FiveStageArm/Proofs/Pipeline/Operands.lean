/-
  FiveStageArm.Proofs.Pipeline.Operands — where the operands of the instruction in ID/EX
  come from. What it should read is the registers as EX/MEM and MEM/WB will leave them
  (`pending`); what decode has latched is the registers as they were when it was decoded.

  Proved, for the roles the instruction reads:
  - With forwarding it is given the pending values, unless a load in EX/MEM, whose data is
    not there yet, writes one of them (`forward_sources`).
  - Without forwarding it is given what was latched, and that is the pending values exactly
    when it is settled (`settled_iff_sources`).
  - Waiting for every writer in flight, as decode does without forwarding, lets only settled
    instructions into ID/EX (`settled_step`); waiting for loads, as it does with it, keeps
    a load and its reader from being neighbours (`loadsApart_step`).

  What stands in the other roles makes no difference to an instruction, and is neither
  forwarded nor waited for (`unread_operands_immaterial`).
-/

import FiveStageArm.Proofs.Isa.Sources
import FiveStageArm.Proofs.Pipeline.Cycle

namespace FiveStageArm

namespace Pipeline

/-- The registers once EX/MEM and MEM/WB have been written back. -/
def pending (s : Pipeline × Machine) : Reg → Word :=
  afterWriteBack (accessMemory s.2.board s.1.latches.exMem).1 (afterWriteBack s.1.latches.memWb s.2.registers.read)

/-- Nothing in flight changes what the instruction in ID/EX reads. -/
def Settled (s : Pipeline × Machine) : Prop :=
  ∀ d ∈ s.1.latches.idEx, ∀ r, d.instruction.operation.reads r → s.2.registers.read r = pending s r

instance (s : Pipeline × Machine) : Decidable (Settled s) :=
  inferInstanceAs (Decidable (∀ d ∈ s.1.latches.idEx, ∀ r : Reg, d.instruction.operation.reads r → _ = _))

/-- The instruction in ID/EX reads no register that a load in EX/MEM writes. -/
def LoadsApart (l : Latches) : Prop :=
  ∀ e ∈ l.exMem, e.instruction.memRead → ∀ d ∈ l.idEx, d.instruction.operation.reads e.instruction.rd = false

/-! ## Forwarding -/

theorem ne_pc_of_reads {o : Operation} {r : Reg} (h : o.reads r) : r ≠ .pc := by
  rintro rfl
  simp [Operation.reads] at h

theorem afterWriteBack_of_apart {memWb : Option Accessed} {value : Reg → Word} {r : Reg}
    (h : memWb.any (fun a => a.instruction.regWrite && a.instruction.rd == r) = false) :
    afterWriteBack memWb value r = value r := by
  cases memWb with
  | none => rfl
  | some a =>
    have hn : ¬(a.instruction.regWrite ∧ a.instruction.rd = r) := by simpa using h
    simp [afterWriteBack, hn]

theorem afterWriteBack_of_writes {a : Accessed} {value : Reg → Word} {r : Reg}
    (h : (a.instruction.regWrite && a.instruction.rd == r) = true) : afterWriteBack (some a) value r = a.value := by
  have hw : a.instruction.regWrite ∧ a.instruction.rd = r := by simpa using h
  simp [afterWriteBack, hw]

/-- Forwarding finds the youngest writer, but for a load in EX/MEM. -/
theorem operandFrom_sourceOf {s : Pipeline × Machine} {r : Reg} (hr : r ≠ .pc)
    (hl : ∀ e ∈ s.1.latches.exMem, e.instruction.memRead → e.instruction.rd ≠ r) :
    operandFrom s.1.latches (sourceOf r s.1.latches.exMem s.1.latches.memWb) (s.2.registers.read r) = pending s r := by
  have fromMemWb : operandFrom s.1.latches
      (if s.1.latches.memWb.any (fun a => a.instruction.regWrite && a.instruction.rd == r) then .memWb else .latched)
      (s.2.registers.read r) = afterWriteBack s.1.latches.memWb s.2.registers.read r := by
    split
    · rename_i hw
      cases ha : s.1.latches.memWb with
      | none => simp [ha] at hw
      | some a =>
        rw [ha] at hw
        rw [afterWriteBack_of_writes hw]
        simp [operandFrom, ha]
    · rename_i hw
      rw [afterWriteBack_of_apart (by simpa using hw)]
      rfl
  unfold sourceOf pending
  rw [if_neg hr]
  cases he : s.1.latches.exMem with
  | none => exact fromMemWb
  | some e =>
    by_cases hw : (e.instruction.regWrite && e.instruction.rd == r) = true
    · have hm : e.instruction.memRead = false := by
        cases hm : e.instruction.memRead with
        | false => rfl
        | true => simp [hl e he hm] at hw
      have hc : (e.instruction.regWrite && !e.instruction.memRead && e.instruction.rd == r) = true := by
        simpa [hm] using hw
      simp only [Option.any_some, hc, if_true]
      rw [show (accessMemory s.2.board (some e)).1 =
        some ⟨e.instruction, e.result, (s.2.board.access e.instruction e.result e.storeValue).1⟩ from rfl,
        afterWriteBack_of_writes hw]
      simp [operandFrom, he, Accessed.value, hm]
    · have hc : (e.instruction.regWrite && !e.instruction.memRead && e.instruction.rd == r) = false := by
        revert hw
        cases e.instruction.regWrite <;> simp
        intro hne _
        exact hne
      simp only [Option.any_some, hc, Bool.false_eq_true, if_false]
      rw [afterWriteBack_of_apart (by simpa [accessMemory] using hw)]
      exact fromMemWb

theorem forward_sources {s : Pipeline × Machine} {d : Decoded} (hd : s.1.latches.idEx = some d)
    (ho : d.operands = d.instruction.operands s.2.registers.read) (hf : s.1.config.forwarding = true)
    (hl : LoadsApart s.1.latches) :
    d.instruction.operation.SameSources (forward s.1.latches (bypass s) d.operands)
      (d.instruction.operands (pending s)) := by
  have role (r : Reg) (hu : r ≠ .pc → d.instruction.operation.reads r) :
      operandFrom s.1.latches (sourceOf r s.1.latches.exMem s.1.latches.memWb)
        (if r = .pc then d.instruction.pc + 8 else s.2.registers.read r) =
      if r = .pc then d.instruction.pc + 8 else pending s r := by
    by_cases hr : r = .pc
    · simp [hr, sourceOf, operandFrom]
    · rw [if_neg hr, if_neg hr]
      refine operandFrom_sourceOf hr fun e he hm hrd => ?_
      have hn := hl e he hm d hd
      rw [hrd, hu hr] at hn
      cases hn
  have hb : bypass s = .of d.instruction.operation s.1.latches.exMem s.1.latches.memWb := by
    simp [bypass, Decision.evaluate, hf, hd]
  rw [hb, ho]
  constructor
  · intro hu
    simp only [forward, Bypass.of, hu, if_true]
    exact role d.instruction.operation.rn (Operation.reads_rn hu)
  · intro hu
    simp only [forward, Bypass.of, hu, if_true]
    exact role d.instruction.operation.rm (Operation.reads_rm hu)
  · intro hu
    simp only [forward, Bypass.of, hu, if_true]
    exact role d.instruction.operation.rs (Operation.reads_rs hu)
  · intro hu
    simp only [forward, Bypass.of, hu, if_true]
    exact role d.instruction.operation.rd (Operation.reads_rd hu)

/-! ## Without forwarding -/

theorem forward_none {s : Pipeline × Machine} (hf : s.1.config.forwarding = false) (ops : Operands) :
    forward s.1.latches (bypass s) ops = ops := by
  have hb : bypass s = .none := by simp [bypass, Decision.evaluate, hf]
  rw [hb]
  rfl

theorem settled_iff_sources {s : Pipeline × Machine} : Settled s ↔ ∀ d ∈ s.1.latches.idEx,
    d.instruction.operation.SameSources (d.instruction.operands s.2.registers.read)
      (d.instruction.operands (pending s)) := by
  constructor
  · intro h d hd
    have role (r : Reg) (hu : r ≠ .pc → d.instruction.operation.reads r) :
        (if r = .pc then d.instruction.pc + 8 else s.2.registers.read r) =
        if r = .pc then d.instruction.pc + 8 else pending s r := by
      by_cases hr : r = .pc
      · simp [hr]
      · simp [hr, h d hd r (hu hr)]
    exact ⟨fun hu => role _ (Operation.reads_rn hu), fun hu => role _ (Operation.reads_rm hu),
      fun hu => role _ (Operation.reads_rs hu), fun hu => role _ (Operation.reads_rd hu)⟩
  · intro h d hd r hr
    have hp := ne_pc_of_reads hr
    have role {q : Reg} (hq : q = r) (e : (if q = .pc then d.instruction.pc + 8 else s.2.registers.read q) =
        if q = .pc then d.instruction.pc + 8 else pending s q) : s.2.registers.read r = pending s r := by
      subst hq
      simpa [hp] using e
    simp only [Operation.reads, Bool.and_eq_true, Bool.or_eq_true, beq_iff_eq] at hr
    obtain ⟨-, ((⟨hu, hq⟩ | ⟨hu, hq⟩) | ⟨hu, hq⟩) | ⟨hu, hq⟩⟩ := hr
    · exact role hq ((h d hd).rn hu)
    · exact role hq ((h d hd).rm hu)
    · exact role hq ((h d hd).rs hu)
    · exact role hq ((h d hd).rd hu)

/-! ## What waiting achieves -/

/-- A load writes a register. -/
theorem regWrite_of_memRead {i : Instruction} (h : i.memRead) : i.regWrite := by
  obtain ⟨raw, pc, cond, o, passed⟩ := i
  cases o with
  | transfer t => exact h
  | _ => simp [Instruction.memRead, Operation.loads] at h

/-- Resolving a condition takes away, and never adds. -/
theorem regWrite_of_gate {i : Instruction} (hp : i.passed) {f : Flags} (h : (i.gate f).regWrite) : i.regWrite := by
  simp only [Instruction.regWrite, Instruction.gate, Bool.and_eq_true] at h ⊢
  exact ⟨hp, h.2⟩

theorem memRead_of_gate {i : Instruction} (hp : i.passed) {f : Flags} (h : (i.gate f).memRead) : i.memRead := by
  simp only [Instruction.memRead, Instruction.gate, Bool.and_eq_true] at h ⊢
  exact ⟨hp, h.2⟩

theorem not_writes_of_clear {i : Instruction} {o : Operation} {r : Reg} (hr : o.reads r)
    (h : (i.regWrite && o.reads i.rd) = false) : (i.regWrite && i.rd == r) = false := by
  cases hw : i.regWrite with
  | false => rfl
  | true =>
    have hn : o.reads i.rd = false := by simpa [hw] using h
    have hne : i.rd ≠ r := by
      rintro rfl
      rw [hr] at hn
      cases hn
    simp [hne]

section Waiting

variable {s : Pipeline × Machine} (hz : s.1.config.hazardDetection = true)
  (hp : ∀ d ∈ s.1.latches.idEx, d.instruction.passed)

include hz hp

theorem settled_step (hf : s.1.config.forwarding = false) : Settled (step s) := by
  intro d' hd' r hr
  obtain ⟨f, hif, -, hs, rfl⟩ := of_mem_step_idEx hd'
  have clear : rawHazard s.1.latches.idEx s.1.latches.exMem f.decode.operation = false := by
    simpa [stalling, mustStall, hz, hf, Option.mem_def.mp hif] using hs
  simp only [rawHazard, Bool.or_eq_false_iff] at clear
  -- neither of the instructions ahead writes `r`, so writing them back changes nothing
  have memWb : (step s).1.latches.memWb.any (fun a => a.instruction.regWrite && a.instruction.rd == r) = false := by
    cases ha : (step s).1.latches.memWb with
    | none => rfl
    | some a =>
      obtain ⟨e, he, rfl⟩ := of_mem_step_memWb ha
      have hn := clear.2
      rw [Option.mem_def.mp he] at hn
      exact not_writes_of_clear hr hn
  have exMem : (accessMemory (step s).2.board (step s).1.latches.exMem).1.any
      (fun a => a.instruction.regWrite && a.instruction.rd == r) = false := by
    cases he : (step s).1.latches.exMem with
    | none => rfl
    | some e =>
      obtain ⟨d, hd, rfl⟩ := of_mem_step_exMem he
      have hn := clear.1
      rw [Option.mem_def.mp hd] at hn
      have hd' : ((d.instruction.gate s.2.registers.flags).regWrite && d.instruction.rd == r) = false := by
        cases hw : (d.instruction.gate s.2.registers.flags).regWrite with
        | false => rfl
        | true => exact regWrite_of_gate (hp d hd) hw ▸ not_writes_of_clear hr hn
      exact hd'
  rw [pending, afterWriteBack_of_apart exMem, afterWriteBack_of_apart memWb]

theorem loadsApart_step : LoadsApart (step s).1.latches := by
  intro e he hm d' hd'
  obtain ⟨f, hif, -, hs, rfl⟩ := of_mem_step_idEx hd'
  obtain ⟨d, hd, rfl⟩ := of_mem_step_exMem he
  have load := memRead_of_gate (hp d hd) hm
  cases hf : s.1.config.forwarding with
  | true =>
    have clear : loadUse s.1.latches.idEx f.decode.operation = false := by
      simpa [stalling, mustStall, hz, hf, Option.mem_def.mp hif] using hs
    have hn : f.decode.operation.reads d.instruction.rd = false := by
      simpa [loadUse, Option.mem_def.mp hd, load] using clear
    exact hn
  | false =>
    have clear : rawHazard s.1.latches.idEx s.1.latches.exMem f.decode.operation = false := by
      simpa [stalling, mustStall, hz, hf, Option.mem_def.mp hif] using hs
    simp only [rawHazard, Bool.or_eq_false_iff] at clear
    have hn : f.decode.operation.reads d.instruction.rd = false := by
      simpa [Option.mem_def.mp hd, regWrite_of_memRead load] using clear.1
    exact hn

end Waiting

/-! ## Roles that are not read -/

/-- Operands are forwarded in the roles the operation reads only. -/
structure Bypass.OnlyRead (p : Bypass) (o : Operation) : Prop where
  rn : o.usesRn = false → p.rn = .latched
  rm : o.usesRm = false → p.rm = .latched
  rs : o.usesRs = false → p.rs = .latched
  rd : o.usesRd = false → p.rd = .latched

theorem Bypass.onlyRead_of (o : Operation) (exMem : Option Executed) (memWb : Option Accessed) :
    (Bypass.of o exMem memWb).OnlyRead o := by
  constructor <;> intro unused <;> simp [Bypass.of, unused]

theorem role_of_reads {o : Operation} {r : Reg} (h : o.reads r) :
    (o.usesRn ∧ o.rn = r) ∨ (o.usesRm ∧ o.rm = r) ∨ (o.usesRs ∧ o.rs = r) ∨ (o.usesRd ∧ o.rd = r) := by
  simpa only [Operation.reads, Bool.and_eq_true, Bool.or_eq_true, beq_iff_eq, or_assoc] using
    (Bool.and_eq_true_iff.mp h).2

/-- The outcomes differ at most in a value to store that the instruction does not store. -/
structure SameEffect (i : Instruction) (x y : Outcome) : Prop where
  result : x.result = y.result
  flags : x.flags = y.flags
  branchTaken : x.branchTaken = y.branchTaken
  branchTarget : x.branchTarget = y.branchTarget
  storeValue : i.memWrite → x.storeValue = y.storeValue
  access : ∀ {n} (bus : Bus n), bus.access i x.result x.storeValue = bus.access i y.result y.storeValue

/-- What stands in the roles that a decoded word does not read makes no difference to what it
    computes or to its access, so they are neither forwarded nor waited for. -/
theorem unread_operands_immaterial (w : Word) (pc : Address) (f : Flags) {a b : Operands}
    (same : (decodeGated w pc f).operation.SameSources a b) :
    let i := decodeGated w pc f
    let o := i.operation
    SameEffect i (i.execute a f) (i.execute b f) ∧
      (∀ exMem memWb, (Bypass.of o exMem memWb).OnlyRead o) ∧
      ∀ r, o.reads r →
        (o.usesRn ∧ o.rn = r) ∨ (o.usesRm ∧ o.rm = r) ∨ (o.usesRs ∧ o.rs = r) ∨ (o.usesRd ∧ o.rd = r) := by
  intro i o
  refine ⟨?_, Bypass.onlyRead_of o, fun r => role_of_reads⟩
  have outcome : i.execute a f = { i.execute b f with storeValue := (i.execute a f).storeValue } :=
    i.execute_congr same f
  have result : (i.execute a f).result = (i.execute b f).result := by rw [outcome]
  have stored (writes : i.memWrite) : (i.execute a f).storeValue = (i.execute b f).storeValue :=
    i.storeValue_congr same (Bool.and_eq_true_iff.mp writes).2 f
  constructor
  case result => exact result
  case flags => rw [outcome]
  case branchTaken => rw [outcome]
  case branchTarget => rw [outcome]
  case storeValue => exact stored
  case access =>
    intro n bus
    rw [result]
    exact i.access_storeValue_congr bus (i.execute b f).result stored

/-- STRB R1, [R2, #4] reads R2 and R1, and whatever else is about does not reach the bus. -/
theorem unread_operands_immaterial_storeByte :
    let f : Flags := ⟨false, true, true, false⟩
    let i := decodeGated 0xE5C21004 0x100 f
    let x := i.execute ⟨0x10000, 1, 2, 0x1241⟩ f
    let y := i.execute ⟨0x10000, 7, 8, 0x1241⟩ f
    i.operation.SameSources ⟨0x10000, 1, 2, 0x1241⟩ ⟨0x10000, 7, 8, 0x1241⟩ ∧ i.memWrite ∧
      Board.empty.access i x.result x.storeValue = Board.empty.access i y.result y.storeValue ∧
      (Board.empty.access i x.result x.storeValue).2.peek 0x10004 = 0x41 := by
  intro f i x y
  have same : i.operation.SameSources ⟨0x10000, 1, 2, 0x1241⟩ ⟨0x10000, 7, 8, 0x1241⟩ :=
    ⟨fun _ => rfl, by decide +kernel, by decide +kernel, fun _ => rfl⟩
  have access := (unread_operands_immaterial 0xE5C21004 0x100 f same).1.access Board.empty
  exact ⟨same, by decide +kernel, access, by decide +kernel⟩

end Pipeline

end FiveStageArm
