/-
  FiveStageArm.Proofs.Pipeline.Simulation — the pipeline follows a run of the single-cycle
  core. The instructions in flight are consecutive ones of the run, so each stage stands at
  a number in it: `nextWb` is how many instructions have been written back, and the stages
  before write-back are ahead of it by the instructions in the latches between.

  Each effect is committed by its own stage, and so agrees with the run at that stage's
  number (`Agrees`): the registers at `nextWb`, the bus at `nextMem`, the flags at `nextEx`.
  What the latches hold agrees with the run in the same way (`Simulates`), except behind a
  branch that will be taken: there fetch is on the wrong path, and nothing is said of it.

  Proved: a cycle keeps `Simulates` until a self-branch is written back (`simulates_step`),
  and `Agrees` in that cycle too (`agrees_step`).
-/

import FiveStageArm.Proofs.SingleCycle
import FiveStageArm.Proofs.Pipeline.Operands

namespace FiveStageArm

namespace Pipeline

open SingleCycle (Run StoresClear Overwrites word current outcome taken)

/-! ## Where the pipeline stands in the run -/

section Numbers

variable (p : Pipeline)

/-- The number of the instruction that write-back takes next; the others likewise. -/
def nextWb : Nat := p.counters.instructions
def nextMem : Nat := p.nextWb + p.latches.memWb.isSome.toNat
def nextEx : Nat := p.nextMem + p.latches.exMem.isSome.toNat
def nextId : Nat := p.nextEx + p.latches.idEx.isSome.toNat
def nextIf : Nat := p.nextId + p.latches.ifId.isSome.toNat

end Numbers

theorem next_of_some {α : Type} {latch : Option α} {x : α} (k : Nat) (h : latch = some x) :
    k + latch.isSome.toNat = k + 1 := by
  rw [h]
  rfl

theorem next_of_none {α : Type} {latch : Option α} (k : Nat) (h : latch = none) : k + latch.isSome.toNat = k := by
  rw [h]
  rfl

section NextNumbers

variable (s : Pipeline × Machine)

theorem nextWb_step : (step s).1.nextWb = s.1.nextMem := step_instructions s

theorem nextMem_step : (step s).1.nextMem = s.1.nextEx := by
  have h : (step s).1.latches.memWb.isSome = s.1.latches.exMem.isSome := by
    rw [step_memWb, isSome_accessMemory]
  rw [nextMem, nextWb_step, h]
  rfl

theorem nextEx_step : (step s).1.nextEx = s.1.nextId := by
  have h : (step s).1.latches.exMem.isSome = s.1.latches.idEx.isSome := by
    rw [step_exMem, isSome_executing]
  rw [nextEx, nextMem_step, h]
  rfl

end NextNumbers

/-! ## What the latches hold -/

/-- The latch holds what the instruction about to be executed in `t` computes. -/
structure Executes (e : Executed) (t : SingleCycle × Machine) : Prop where
  instruction : e.instruction = current t
  result : e.result = (outcome t).result
  storeValue : (current t).memWrite → e.storeValue = (outcome t).storeValue
  branchTaken : e.branchTaken = taken t
  branchTarget : e.branchTarget = (outcome t).branchTarget

theorem Executes.branchTaken_of_isSelfBranch {e : Executed} {t : SingleCycle × Machine} (h : Executes e t)
    (hb : e.instruction.isSelfBranch) : e.branchTaken = true := by
  rw [h.branchTaken]
  exact SingleCycle.taken_of_isSelfBranch _ (h.instruction ▸ hb)

/-- The latch holds what that instruction writes back. -/
structure Completes (a : Accessed) (t : SingleCycle × Machine) : Prop where
  instruction : a.instruction = current t
  value : a.value = SingleCycle.value t

/-- The core goes on to the next address. -/
def Straight (t : SingleCycle × Machine) : Prop := t.1.halted = false ∧ taken t = false

theorem Straight.succ {start : Nat} {σ : Nat → SingleCycle × Machine} {k : Nat} (h : Straight (σ k))
    (run : Run start σ) : (σ (k + 1)).1.halted = false := by
  rw [run.halted_succ h.1]
  cases hb : (current (σ k)).isSelfBranch with
  | false => rfl
  | true => rw [← h.2, SingleCycle.taken_of_isSelfBranch _ hb]

/-- The fetches of the instructions in flight have left the UART's queue alone. -/
structure CodeClear (l : Latches) : Prop where
  ifId : ∀ f ∈ l.ifId, align f.pc ≠ Board.uartBase
  idEx : ∀ d ∈ l.idEx, align d.instruction.pc ≠ Board.uartBase
  exMem : ∀ e ∈ l.exMem, align e.instruction.pc ≠ Board.uartBase

/-- What is committed is the run's, at the number of the stage that commits it. -/
structure Agrees (σ : Nat → SingleCycle × Machine) (s : Pipeline × Machine) : Prop where
  registers : ∀ r, r ≠ .pc → s.2.registers.read r = (σ s.1.nextWb).2.registers.read r
  board : s.2.board.contents = (σ s.1.nextMem).2.board.contents
  flags : s.2.registers.flags = (σ s.1.nextEx).2.registers.flags
  halted : s.1.halted = (σ s.1.nextWb).1.halted

structure Simulates (start : Nat) (σ : Nat → SingleCycle × Machine) (s : Pipeline × Machine) : Prop
    extends Agrees σ s where
  running : s.1.halted = false
  /-- A redirection of the run is behind execute. -/
  started : start ≤ s.1.nextEx
  unstaged : Unstaged s
  code : CodeClear s.1.latches
  memWb : ∀ a ∈ s.1.latches.memWb, Completes a (σ s.1.nextWb)
  exMem : ∀ e ∈ s.1.latches.exMem, (σ s.1.nextMem).1.halted = false ∧ Executes e (σ s.1.nextMem)
  idEx : ∀ d ∈ s.1.latches.idEx, (σ s.1.nextEx).1.halted = false ∧
    d.instruction = decode (word (σ s.1.nextEx)) (σ s.1.nextEx).1.pc ∧
    d.operands = d.instruction.operands s.2.registers.read
  ifId : ∀ f ∈ s.1.latches.ifId, (s.1.latches.idEx.isSome → Straight (σ s.1.nextEx)) →
    f = ⟨word (σ s.1.nextId), (σ s.1.nextId).1.pc⟩
  pc : (s.1.latches.idEx.isSome → Straight (σ s.1.nextEx)) → (s.1.latches.ifId.isSome → Straight (σ s.1.nextId)) →
    s.1.pc = (σ s.1.nextIf).1.pc
  /-- Nothing younger is in flight behind a taken branch. -/
  squashed : ∀ e ∈ s.1.latches.exMem, e.branchTaken → s.1.latches.idEx = none ∧ s.1.latches.ifId = none
  spent : ∀ a ∈ s.1.latches.memWb, a.instruction.isSelfBranch → s.1.latches.exMem = none ∧ s.1.latches.idEx = none
  apart : LoadsApart s.1.latches

/-- Execute is given what the run reads, in the roles that count. -/
def OperandsAgree (σ : Nat → SingleCycle × Machine) (s : Pipeline × Machine) : Prop :=
  ∀ d ∈ s.1.latches.idEx, d.instruction.operation.SameSources (forward s.1.latches (bypass s) d.operands)
    (SingleCycle.operands (σ s.1.nextEx))

/-- What a cycle needs besides: decode waits for hazards, without forwarding what was latched
    is still good, and the word about to be fetched is not DATA. -/
structure Ready (s : Pipeline × Machine) : Prop where
  hazardDetection : s.1.config.hazardDetection = true
  operands : s.1.config.forwarding = true ∨ Settled s
  fetch : holding s = false → align s.1.pc ≠ Board.uartBase

variable {start : Nat} {σ : Nat → SingleCycle × Machine} {s : Pipeline × Machine}

/-! ## The run as the stages reach it -/

/-- Writing an instruction back takes the registers one instruction further. -/
theorem afterWriteBack_run (run : Run start σ) {k : Nat} {memWb : Option Accessed} {value : Reg → Word}
    (hv : ∀ r, r ≠ .pc → value r = (σ k).2.registers.read r)
    (ha : ∀ a ∈ memWb, (σ k).1.halted = false ∧ Completes a (σ k)) {r : Reg} (hr : r ≠ .pc) :
    afterWriteBack memWb value r = (σ (k + memWb.isSome.toNat)).2.registers.read r := by
  cases memWb with
  | none => exact hv r hr
  | some a =>
    obtain ⟨hl, hc⟩ := ha a rfl
    show _ = (σ (k + 1)).2.registers.read r
    rw [run.read_succ hl hr]
    simp only [afterWriteBack, hc.instruction, hc.value, hv r hr]

/-- The memory stage gives the instruction what the bus of the run would give it. -/
theorem access_run (run : Run start σ) {b : Board} {k : Nat} {e : Executed} (hl : (σ k).1.halted = false)
    (hb : b.contents = (σ k).2.board.contents) (he : Executes e (σ k))
    (hc : align e.instruction.pc ≠ Board.uartBase) :
    Completes ⟨e.instruction, e.result, (b.access e.instruction e.result e.storeValue).1⟩ (σ k) ∧
      (b.access e.instruction e.result e.storeValue).2.contents = (σ (k + 1)).2.board.contents := by
  have hpc : e.instruction.pc = (σ k).1.pc := by rw [he.instruction]; rfl
  have fetched : ((σ k).2.board.fetch (σ k).1.pc).2.contents = b.contents := by
    rw [(run.wired_at k).contents_fetch (hpc ▸ hc), hb]
  have stored : e.instruction.memWrite → e.storeValue = (outcome (σ k)).storeValue :=
    fun hw => he.storeValue (he.instruction ▸ hw)
  obtain ⟨hv, hd⟩ := Bus.access_congr fetched.symm e.instruction e.result stored
  rw [he.result, he.instruction] at hv hd
  refine ⟨⟨he.instruction, ?_⟩, ?_⟩
  · simp only [Accessed.value, SingleCycle.value, he.instruction, he.result, hv]
    rfl
  · rw [run.board_succ hl, he.result, he.instruction, hd]
    rfl

section Stages

variable (run : Run start σ) (h : Simulates start σ s)

include h

theorem Simulates.running_nextWb : (σ s.1.nextWb).1.halted = false := by rw [← h.halted, h.running]

include run

/-- The memory stage takes the bus as far as execute has come. -/
theorem memory_run : (∀ a ∈ (accessMemory s.2.board s.1.latches.exMem).1,
      (σ s.1.nextMem).1.halted = false ∧ Completes a (σ s.1.nextMem)) ∧
    (accessed s).contents = (σ s.1.nextEx).2.board.contents := by
  unfold accessed nextEx
  cases he : s.1.latches.exMem with
  | none =>
    simp only [accessMemory, Option.isSome_none, Bool.toNat_false, Nat.add_zero]
    exact ⟨fun a ha => absurd ha (Option.not_mem_none a), h.board⟩
  | some e =>
    obtain ⟨hl, hx⟩ := h.exMem e he
    obtain ⟨hc, hb⟩ := access_run run hl h.board hx (h.code.exMem e he)
    simp only [accessMemory, Option.isSome_some, Bool.toNat_true, Option.mem_def, Option.some.injEq, forall_eq']
    exact ⟨⟨hl, hc⟩, hb⟩

/-- What the instruction in ID/EX should read is what the run gives it. -/
theorem pending_run {r : Reg} (hr : r ≠ .pc) : pending s r = (σ s.1.nextEx).2.registers.read r := by
  have written {r : Reg} (hr : r ≠ .pc) :
      afterWriteBack s.1.latches.memWb s.2.registers.read r = (σ s.1.nextMem).2.registers.read r :=
    afterWriteBack_run run h.registers (fun a ha => ⟨h.running_nextWb, h.memWb a ha⟩) hr
  have next := afterWriteBack_run run (fun _ => written) (memory_run run h).1 hr
  rw [isSome_accessMemory] at next
  exact next

/-- With forwarding always; without it exactly for a settled instruction. -/
theorem operandsAgree_iff : OperandsAgree σ s ↔ s.1.config.forwarding = true ∨ Settled s := by
  have wanted : ∀ d ∈ s.1.latches.idEx, d.instruction.operands (pending s) = SingleCycle.operands (σ s.1.nextEx) := by
    intro d hd
    rw [(h.idEx d hd).2.1]
    exact Instruction.operands_congr _ fun r hr => pending_run run h hr
  cases hf : s.1.config.forwarding with
  | true =>
    refine ⟨fun _ => Or.inl rfl, fun _ d hd => ?_⟩
    rw [← wanted d hd]
    exact forward_sources hd (h.idEx d hd).2.2 hf h.apart
  | false =>
    have latched : ∀ d ∈ s.1.latches.idEx,
        forward s.1.latches (bypass s) d.operands = d.instruction.operands s.2.registers.read := by
      intro d hd
      rw [forward_none hf, (h.idEx d hd).2.2]
    constructor
    · intro ho
      refine Or.inr (settled_iff_sources.mpr fun d hd => ?_)
      rw [← latched d hd, wanted d hd]
      exact ho d hd
    · intro hs d hd
      rw [latched d hd, ← wanted d hd]
      exact settled_iff_sources.mp (hs.resolve_left (by simp)) d hd

theorem execute_run (ready : Ready s) {d : Decoded} (hd : s.1.latches.idEx = some d) :
    Executes (.of (executeNow s d).1 (executeNow s d).2) (σ s.1.nextEx) ∧
      (executeNow s d).2.flags = (outcome (σ s.1.nextEx)).flags := by
  obtain ⟨-, hi, -⟩ := h.idEx d hd
  have sources := (operandsAgree_iff run h).mpr ready.operands d hd
  have resolved : (executeNow s d).1 = current (σ s.1.nextEx) := by
    show d.instruction.gate s.2.registers.flags = _
    rw [hi, h.flags]
    rfl
  have same : d.instruction.operation = (current (σ s.1.nextEx)).operation := by
    rw [hi]
    rfl
  rw [same] at sources
  have computed : (executeNow s d).2 = (current (σ s.1.nextEx)).execute
      (forward s.1.latches (bypass s) d.operands) (σ s.1.nextEx).2.registers.flags := by
    rw [← resolved, ← h.flags]
    rfl
  have outcome_eq := Instruction.execute_congr (current (σ s.1.nextEx)) sources (σ s.1.nextEx).2.registers.flags
  rw [← computed] at outcome_eq
  refine ⟨⟨resolved, ?_, fun hw => ?_, ?_, ?_⟩, ?_⟩
  · exact (congrArg Outcome.result outcome_eq :)
  · show (executeNow s d).2.storeValue = _
    rw [computed]
    exact Instruction.storeValue_congr _ sources (Bool.and_eq_true_iff.mp hw).2 _
  · exact (congrArg Outcome.branchTaken outcome_eq :)
  · exact (congrArg Outcome.branchTarget outcome_eq :)
  · exact (congrArg Outcome.flags outcome_eq :)

theorem executing_run (ready : Ready s) {e : Executed} (he : executing s = some e) :
    (σ s.1.nextEx).1.halted = false ∧ Executes e (σ s.1.nextEx) := by
  obtain ⟨d, hd, rfl⟩ := Option.map_eq_some_iff.mp he
  exact ⟨(h.idEx d hd).1, (execute_run run h ready hd).1⟩

theorem straight_of_not_flushing (ready : Ready s) (hf : flushing s = false) (hi : s.1.latches.idEx.isSome) :
    Straight (σ s.1.nextEx) := by
  obtain ⟨d, hd⟩ := Option.isSome_iff_exists.mp hi
  have he : executing s = some (.of (executeNow s d).1 (executeNow s d).2) := by rw [executing, hd]; rfl
  obtain ⟨hl, hx⟩ := executing_run run h ready he
  refine ⟨hl, ?_⟩
  rw [← hx.branchTaken]
  simpa [flushing, he] using hf

/-! ## What is fetched -/

/-- As long as no self-branch is on its way to write-back, the run goes on at execute. -/
theorem running_nextEx (hm : ∀ a ∈ s.1.latches.memWb, a.instruction.isSelfBranch = false)
    (hx : ∀ e ∈ s.1.latches.exMem, e.instruction.isSelfBranch = false) : (σ s.1.nextEx).1.halted = false := by
  cases he : s.1.latches.exMem with
  | some e =>
    obtain ⟨hl, hc⟩ := h.exMem e he
    rw [show s.1.nextEx = s.1.nextMem + 1 from next_of_some _ he, run.halted_succ hl, ← hc.instruction]
    exact hx e he
  | none =>
    rw [show s.1.nextEx = s.1.nextMem from next_of_none _ he]
    cases ha : s.1.latches.memWb with
    | some a =>
      rw [show s.1.nextMem = s.1.nextWb + 1 from next_of_some _ ha, run.halted_succ h.running_nextWb,
        ← (h.memWb a ha).instruction]
      exact hm a ha
    | none =>
      rw [show s.1.nextMem = s.1.nextWb from next_of_none _ ha]
      exact h.running_nextWb

theorem running_nextId (hm : ∀ a ∈ s.1.latches.memWb, a.instruction.isSelfBranch = false)
    (hx : s.1.latches.idEx.isSome → Straight (σ s.1.nextEx)) (hf : s.1.latches.ifId.isSome) :
    (σ s.1.nextId).1.halted = false := by
  cases hi : s.1.latches.idEx with
  | some d =>
    rw [show s.1.nextId = s.1.nextEx + 1 from next_of_some _ hi]
    exact (hx (by simp [hi])).succ run
  | none =>
    rw [show s.1.nextId = s.1.nextEx from next_of_none _ hi]
    refine running_nextEx run h hm fun e he => ?_
    cases hb : e.instruction.isSelfBranch with
    | false => rfl
    | true =>
      have ht := (h.exMem e he).2.branchTaken_of_isSelfBranch hb
      simp [(h.squashed e he ht).2] at hf

omit h in
/-- The next address fetched from is after that of the instruction in front of it. -/
theorem not_queueWord (ready : Ready s) (hh : holding s = false) {k : Nat} (hk : start ≤ k) (hn : s.1.nextIf = k + 1)
    (hs : Straight (σ k)) (hc : align (σ k).1.pc ≠ Board.uartBase) (hp : s.1.pc = (σ s.1.nextIf).1.pc) :
    ¬Bus.Wired.QueueWord (σ s.1.nextIf).1.pc := by
  have hpc : (σ s.1.nextIf).1.pc = (σ k).1.pc + 4 := by
    rw [hn, run.pc_succ hk hs.1, hs.2]
    rfl
  rintro (hq | hq)
  · exact ready.fetch hh (hp ▸ hq)
  · rw [hpc, align_add_four] at hq
    exact hc (UInt32.add_left_inj 4 |>.mp hq)

omit run in
theorem code_idEx {d : Decoded} (hd : d ∈ s.1.latches.idEx) : align (σ s.1.nextEx).1.pc ≠ Board.uartBase := by
  have hc := h.code.idEx d hd
  rwa [(h.idEx d hd).2.1] at hc

section Fetch

variable (ready : Ready s) (hh : holding s = false) (hx : s.1.latches.idEx.isSome → Straight (σ s.1.nextEx))
  (hf : s.1.latches.ifId.isSome → Straight (σ s.1.nextId))

include hx

omit run in
theorem code_ifId {f : Fetched} (hg : f ∈ s.1.latches.ifId) : align (σ s.1.nextId).1.pc ≠ Board.uartBase := by
  have hc := h.code.ifId f hg
  rwa [h.ifId f hg hx] at hc

include ready hh hf

/-- With anything in decode or execute, fetch is right behind it. -/
theorem fetch_behind (hlt : s.1.nextEx < s.1.nextIf) :
    (σ s.1.nextIf).1.halted = false ∧ ¬Bus.Wired.QueueWord (σ s.1.nextIf).1.pc := by
  obtain ⟨k, hk, e, hs, hc⟩ : ∃ k, start ≤ k ∧ s.1.nextIf = k + 1 ∧ Straight (σ k) ∧
      align (σ k).1.pc ≠ Board.uartBase := by
    cases hj : s.1.latches.ifId with
    | some f =>
      have hk : start ≤ s.1.nextId := Nat.le_trans h.started (Nat.le_add_right _ _)
      exact ⟨s.1.nextId, hk, next_of_some _ hj, hf (by simp [hj]), code_ifId h hx hj⟩
    | none =>
      have e : s.1.nextIf = s.1.nextId := next_of_none _ hj
      cases hi : s.1.latches.idEx with
      | some d => exact ⟨s.1.nextEx, h.started, e.trans (next_of_some _ hi), hx (by simp [hi]), code_idEx h hi⟩
      | none =>
        have e' : s.1.nextId = s.1.nextEx := next_of_none _ hi
        omega
  have live := hs.succ run
  rw [← e] at live
  exact ⟨live, not_queueWord run ready hh hk e hs hc (h.pc hx hf)⟩

/-- Stores ahead of a fetch do not change what it reads. -/
theorem fetch_run (clear : StoresClear fun k => σ (start + k)) :
    ((accessed s).fetch s.1.pc).1 = word (σ s.1.nextIf) := by
  have near : (σ s.1.nextIf).2.board.peek (σ s.1.nextIf).1.pc = (σ s.1.nextId).2.board.peek (σ s.1.nextIf).1.pc := by
    cases hj : s.1.latches.ifId with
    | none => rw [show s.1.nextIf = s.1.nextId from next_of_none _ hj]
    | some f =>
      have e : s.1.nextIf = s.1.nextId + 1 := next_of_some _ hj
      have hk : s.1.nextEx ≤ s.1.nextId := Nat.le_add_right _ _
      obtain ⟨live, hq⟩ := fetch_behind run h ready hh hx hf (by omega)
      rw [e] at live hq ⊢
      exact run.peek_of_clear clear (Nat.le_trans h.started hk) (Or.inl rfl) live (code_ifId h hx hj) hq
  have far : (σ s.1.nextId).2.board.peek (σ s.1.nextIf).1.pc = (σ s.1.nextEx).2.board.peek (σ s.1.nextIf).1.pc := by
    cases hi : s.1.latches.idEx with
    | none => rw [show s.1.nextId = s.1.nextEx from next_of_none _ hi]
    | some d =>
      have e : s.1.nextId = s.1.nextEx + 1 := next_of_some _ hi
      obtain ⟨j, hj, e'⟩ : ∃ j, (j = 1 ∨ j = 2) ∧ s.1.nextIf = s.1.nextEx + j := by
        have le : s.1.latches.ifId.isSome.toNat ≤ 1 := Bool.toNat_le _
        exact ⟨1 + s.1.latches.ifId.isSome.toNat, by omega, by rw [nextIf, e, Nat.add_assoc]⟩
      obtain ⟨live, hq⟩ := fetch_behind run h ready hh hx hf (by omega)
      rw [e'] at live hq ⊢
      rw [e]
      exact run.peek_of_clear clear h.started hj live (code_idEx h hi) hq
  rw [Bus.fetch_fst, Bus.peek_congr (memory_run run h).2, SingleCycle.word_eq_peek, h.pc hx hf, near, far]

end Fetch

/-! ## One cycle -/

theorem step_board_run (ready : Ready s) : (step s).2.board.contents = (σ s.1.nextEx).2.board.contents := by
  have accessed_eq := (memory_run run h).2
  rw [step_board]
  cases hh : holding s with
  | true => exact accessed_eq
  | false =>
    rw [← (run.wired_at s.1.nextEx).contents_fetch (ready.fetch hh)]
    exact (Bus.fetch_congr accessed_eq s.1.pc).2

theorem step_flags_run (ready : Ready s) : (step s).2.registers.flags = (σ s.1.nextId).2.registers.flags := by
  rw [step_flags h.unstaged, nextId]
  cases hi : s.1.latches.idEx with
  | none => exact h.flags
  | some d =>
    obtain ⟨hx, hf⟩ := execute_run run h ready hi
    have hw : (executeNow s d).1 = current (σ s.1.nextEx) := hx.instruction
    show _ = (σ (s.1.nextEx + 1)).2.registers.flags
    rw [run.flags_succ (h.idEx d hi).1, ← hf, ← hw, ← h.flags]

theorem step_halted_run : (step s).1.halted = (σ s.1.nextMem).1.halted := by
  rw [step_halted, h.running, nextMem]
  cases ha : s.1.latches.memWb with
  | none => exact h.running_nextWb.symm
  | some a =>
    show (false || a.instruction.isSelfBranch) = (σ (s.1.nextWb + 1)).1.halted
    rw [run.halted_succ h.running_nextWb, (h.memWb a ha).instruction, Bool.false_or]

theorem agrees_step (ready : Ready s) : Agrees σ (step s) where
  registers r hr := by
    rw [step_read h.unstaged, nextWb_step]
    exact afterWriteBack_run run h.registers (fun a ha => ⟨h.running_nextWb, h.memWb a ha⟩) hr
  board := by rw [nextMem_step]; exact step_board_run run h ready
  flags := by rw [nextEx_step]; exact step_flags_run run h ready
  halted := by rw [nextWb_step]; exact step_halted_run run h

omit run in
theorem codeClear_step (ready : Ready s) : CodeClear (step s).1.latches := by
  refine ⟨?_, ?_, ?_⟩
  · intro f hf
    rw [step_ifId] at hf
    split at hf
    · cases hf
    split at hf
    · exact h.code.ifId f hf
    · rename_i hs
      cases Option.some.inj hf
      exact ready.fetch (by simp [holding, hs])
  · intro d hd
    obtain ⟨f, hf, -, -, rfl⟩ := of_mem_step_idEx hd
    exact h.code.ifId f hf
  · intro e he
    obtain ⟨d, hd, rfl⟩ := of_mem_step_exMem he
    exact h.code.idEx d hd

omit run in
theorem spent_step {a : Accessed} (ha : a ∈ (step s).1.latches.memWb) (hb : a.instruction.isSelfBranch) :
    (step s).1.latches.exMem = none ∧ (step s).1.latches.idEx = none := by
  obtain ⟨e, he, rfl⟩ := of_mem_step_memWb ha
  obtain ⟨hi, hf⟩ := h.squashed e he ((h.exMem e he).2.branchTaken_of_isSelfBranch hb)
  rw [step_exMem, step_idEx, executing, hi, hf]
  simp

theorem idEx_step (ready : Ready s) (hm : ∀ a ∈ s.1.latches.memWb, a.instruction.isSelfBranch = false) {d : Decoded}
    (hd : d ∈ (step s).1.latches.idEx) : (σ s.1.nextId).1.halted = false ∧
      d.instruction = decode (word (σ s.1.nextId)) (σ s.1.nextId).1.pc ∧
      d.operands = d.instruction.operands (step s).2.registers.read := by
  obtain ⟨f, hf, hn, -, rfl⟩ := of_mem_step_idEx hd
  have hx := straight_of_not_flushing run h ready hn
  refine ⟨running_nextId run h hm hx (by simp [Option.mem_def.mp hf]), ?_, rfl⟩
  rw [h.ifId f hf hx]
  rfl

theorem ifId_step (ready : Ready s) (clear : StoresClear fun k => σ (start + k)) {f : Fetched}
    (hf : f ∈ (step s).1.latches.ifId) (hx : (step s).1.latches.idEx.isSome → Straight (σ s.1.nextId)) :
    f = ⟨word (σ (step s).1.nextId), (σ (step s).1.nextId).1.pc⟩ := by
  rw [nextId, nextEx_step]
  obtain ⟨-, -, hi, -⟩ | ⟨hn, -, hd, hi, -⟩ | ⟨hn, hs, hd, hi, -⟩ := step_front s
  · rw [hi] at hf
    cases hf
  · rw [hi] at hf
    rw [hd]
    exact h.ifId f hf (straight_of_not_flushing run h ready hn)
  · have advance : (step s).1.latches.idEx.isSome = s.1.latches.ifId.isSome := by rw [hd, Option.isSome_map]
    rw [advance] at hx ⊢
    rw [hi] at hf
    cases Option.some.inj hf
    have hh : holding s = false := by simp [holding, hs]
    have straight := straight_of_not_flushing run h ready hn
    rw [fetch_run run h ready hh straight hx clear, h.pc straight hx]
    rfl

theorem pc_step (ready : Ready s) (hx : (step s).1.latches.idEx.isSome → Straight (σ s.1.nextId))
    (hf : (step s).1.latches.ifId.isSome → Straight (σ (step s).1.nextId)) :
    (step s).1.pc = (σ (step s).1.nextIf).1.pc := by
  rw [nextIf, nextId, nextEx_step]
  rw [nextId, nextEx_step] at hf
  obtain ⟨hn, hd, hi, hp⟩ | ⟨hn, hs, hd, hi, hp⟩ | ⟨hn, hs, hd, hi, hp⟩ := step_front s
  · rw [hd, hi, hp, nextId]
    cases he : executing s with
    | none => simp [flushing, he] at hn
    | some e =>
      obtain ⟨hl, hc⟩ := executing_run run h ready he
      have ht : taken (σ s.1.nextEx) = true := by
        rw [← hc.branchTaken]
        simpa [flushing, he] using hn
      have hid : s.1.latches.idEx.isSome = true := by rw [← isSome_executing, he, Option.isSome_some]
      rw [hid]
      show e.branchTarget = (σ (s.1.nextEx + 1)).1.pc
      rw [run.pc_succ h.started hl, ht, hc.branchTarget]
      rfl
  · rw [hd, hi, hp]
    rw [hd, hi] at hf
    exact h.pc (straight_of_not_flushing run h ready hn) hf
  · have advance : (step s).1.latches.idEx.isSome = s.1.latches.ifId.isSome := by rw [hd, Option.isSome_map]
    rw [advance] at hx hf ⊢
    rw [hi] at hf ⊢
    rw [hp, h.pc (straight_of_not_flushing run h ready hn) hx]
    obtain ⟨hl, ht⟩ := hf rfl
    have hk : start ≤ s.1.nextIf := by
      have := h.started
      unfold nextIf nextId
      omega
    show _ = (σ (s.1.nextIf + 1)).1.pc
    rw [run.pc_succ hk hl, show taken (σ s.1.nextIf) = false from ht]
    rfl

theorem simulates_step (ready : Ready s) (clear : StoresClear fun k => σ (start + k))
    (hm : ∀ a ∈ s.1.latches.memWb, a.instruction.isSelfBranch = false) : Simulates start σ (step s) where
  toAgrees := agrees_step run h ready
  running := by
    rw [step_halted, h.running]
    cases ha : s.1.latches.memWb with
    | none => rfl
    | some a => simpa using hm a ha
  started := by
    rw [nextEx_step]
    exact Nat.le_trans h.started (Nat.le_add_right _ _)
  unstaged := step_unstaged s
  code := codeClear_step h ready
  memWb a ha := by
    rw [step_memWb] at ha
    rw [nextWb_step]
    exact ((memory_run run h).1 a ha).2
  exMem e he := by
    rw [step_exMem] at he
    rw [nextMem_step]
    exact executing_run run h ready he
  idEx d hd := by
    rw [nextEx_step]
    exact idEx_step run h ready hm hd
  ifId f hf hx := by
    rw [nextEx_step] at hx
    exact ifId_step run h ready clear hf hx
  pc hx hf := by
    rw [nextEx_step] at hx
    exact pc_step run h ready hx hf
  squashed _ he ht := squashed_step he ht
  spent _ ha hb := spent_step h ha hb
  apart := by
    refine loadsApart_step ready.hazardDetection fun d hd => ?_
    rw [(h.idEx d hd).2.1]
    rfl

end Stages

end Pipeline

end FiveStageArm
