/-
  FiveStageArm.Proofs.Pipeline.Cycle — one clock cycle, latch by latch: what `step` puts
  into each part of the next state, in terms of the state before it. The stages share a
  cycle through the registers and the bus only, so each equation names the few things
  its stage has read.

  Nothing stays staged over a clock edge (`step_unstaged`); the equations for registers
  and flags are for states with nothing staged.
-/

import FiveStageArm.Proofs.Registers
import FiveStageArm.Pipeline.Basic

namespace FiveStageArm

namespace Pipeline

/-! ## What a cycle decides -/

section Decisions

variable (s : Pipeline × Machine)

def bypass : Bypass := (Decision.evaluate s.1.config s.1.latches).bypass

def stalling : Bool := mustStall s.1.config s.1.latches

/-- The instruction execute is given, its condition resolved, and what it computes. -/
def executeNow (d : Decoded) : Instruction × Outcome := executeOne s.1.latches (bypass s) s.2.registers.flags d

/-- The next EX/MEM. -/
def executing : Option Executed := s.1.latches.idEx.map fun d => .of (executeNow s d).1 (executeNow s d).2

/-- Execute takes a branch. -/
def flushing : Bool := (executing s).any (·.branchTaken)

/-- Fetch and decode wait. -/
def holding : Bool := stalling s && !flushing s

/-- The board after the memory stage, as fetch finds it. -/
def accessed : Board := (accessMemory s.2.board s.1.latches.exMem).2

/-- Nothing waits for the clock edge. -/
def Unstaged : Prop := s.2.registers.stagedWrite = none ∧ s.2.registers.stagedFlags = none

end Decisions

/-- The registers once the instruction of a MEM/WB latch has been written back. -/
def afterWriteBack (memWb : Option Accessed) (value : Reg → Word) (r : Reg) : Word :=
  match memWb with
  | some a => if a.instruction.regWrite ∧ a.instruction.rd = r then a.value else value r
  | none => value r

/-! ## The stages -/

theorem isSome_executing (s : Pipeline × Machine) : (executing s).isSome = s.1.latches.idEx.isSome := Option.isSome_map

theorem isSome_accessMemory (b : Board) (exMem : Option Executed) : (accessMemory b exMem).1.isSome = exMem.isSome := by
  cases exMem <;> rfl

theorem flags_stageWrite (r : Registers) (memWb : Option Accessed) :
    (stageWrite r memWb).flags = r.flags ∧ (stageWrite r memWb).stagedFlags = r.stagedFlags := by
  unfold stageWrite
  split
  · split <;> exact ⟨rfl, rfl⟩
  · exact ⟨rfl, rfl⟩

theorem executeStage_fst (l : Latches) (b : Bypass) (r : Registers) :
    (executeStage l b r).1 = l.idEx.map fun d => .of (executeOne l b r.flags d).1 (executeOne l b r.flags d).2 := by
  unfold executeStage
  cases l.idEx <;> rfl

theorem readForwarded_executeStage (l : Latches) (b : Bypass) (r : Registers) (q : Reg) :
    (executeStage l b r).2.readForwarded q = r.readForwarded q := by
  unfold executeStage
  cases l.idEx with
  | none => rfl
  | some d =>
    simp only []
    split <;> rfl

theorem flags_executeStage (l : Latches) (b : Bypass) (r : Registers) :
    (executeStage l b r).2.commit.flags = match l.idEx with
      | some d => if (executeOne l b r.flags d).1.setFlags then (executeOne l b r.flags d).2.flags
          else r.stagedFlags.getD r.flags
      | none => r.stagedFlags.getD r.flags := by
  unfold executeStage
  cases l.idEx with
  | none => rfl
  | some d =>
    simp only []
    split <;> rfl

/-! ## The next state -/

section Next

variable (s : Pipeline × Machine)

theorem step_eq : step s =
    let d := (Decision.evaluate s.1.config s.1.latches).resolve (flushing s)
    let registers := (executeStage s.1.latches (bypass s) (stageWrite s.2.registers s.1.latches.memWb)).2
    let fetched := (accessed s).fetch s.1.pc
    let next : Latches :=
      { ifId := d.ifId.apply s.1.latches.ifId (if d.holds then none else some ⟨fetched.1, s.1.pc⟩)
        idEx := d.idEx.apply s.1.latches.idEx (s.1.latches.ifId.map (decodeStage registers))
        exMem := executing s
        memWb := (accessMemory s.2.board s.1.latches.exMem).1 }
    let board := if d.holds then accessed s else fetched.2
    let n := s.1.counters
    let counters : Counters :=
      { cycles := n.cycles + 1
        instructions := n.instructions + s.1.latches.memWb.isSome.toNat
        stalls := n.stalls + d.holds.toNat
        flushes := n.flushes + (if d.flush then 2 else 0)
        forwards := n.forwards + (bypass s).count }
    ({ s.1 with
        latches := next
        pc := if d.flush then (executing s).elim 0 (·.branchTarget) else if d.holds then s.1.pc else s.1.pc + 4
        counters
        trace := if s.1.config.trace then
          recordStages s.1.trace counters.cycles board next d.holds s.1.latches.memWb else s.1.trace
        halted := s.1.halted || s.1.latches.memWb.any (·.instruction.isSelfBranch)
        stalled := d.holds
        decision := d },
      ⟨board, registers.commit⟩) := by
  obtain ⟨p, b, r⟩ := s
  have he : executing (p, ⟨b, r⟩) = (executeStage p.latches (bypass (p, ⟨b, r⟩)) (stageWrite r p.latches.memWb)).1 := by
    rw [executeStage_fst, (flags_stageWrite r p.latches.memWb).1]
    rfl
  unfold flushing
  rw [he]
  simp only [step, accessed, bypass, apply_ite Prod.fst, apply_ite Prod.snd]
  rfl

/-! ### Latches -/

theorem step_memWb : (step s).1.latches.memWb = (accessMemory s.2.board s.1.latches.exMem).1 := by
  rw [step_eq]

theorem step_exMem : (step s).1.latches.exMem = executing s := by
  rw [step_eq]

theorem step_ifId : (step s).1.latches.ifId =
    if flushing s then none else if stalling s then s.1.latches.ifId
      else some ⟨((accessed s).fetch s.1.pc).1, s.1.pc⟩ := by
  have hd : (Decision.evaluate s.1.config s.1.latches).stall = stalling s := rfl
  rw [step_eq]
  cases hf : flushing s <;> cases hs : stalling s <;>
    simp [Decision.resolve, Decision.ifId, Decision.holds, hd, hs, Action.apply]

theorem step_pc : (step s).1.pc =
    if flushing s then (executing s).elim 0 (·.branchTarget) else if stalling s then s.1.pc else s.1.pc + 4 := by
  have hd : (Decision.evaluate s.1.config s.1.latches).stall = stalling s := rfl
  rw [step_eq]
  cases hf : flushing s <;> simp [Decision.resolve, Decision.holds, hd]

/-! ### Registers and flags -/

theorem step_unstaged : Unstaged (step s) := by
  rw [step_eq]
  exact ⟨rfl, rfl⟩

theorem step_readForwarded (r : Reg) :
    (step s).2.registers.read r = (stageWrite s.2.registers s.1.latches.memWb).readForwarded r := by
  rw [step_eq]
  simp only [Registers.read_commit, readForwarded_executeStage]

/-- Decode reads what the registers hold at the clock edge. -/
theorem step_idEx : (step s).1.latches.idEx =
    if flushing s || stalling s then none
    else s.1.latches.ifId.map fun f => ⟨f.decode, f.decode.operands (step s).2.registers.read⟩ := by
  have hd : (Decision.evaluate s.1.config s.1.latches).stall = stalling s := rfl
  have hr : (step s).2.registers.read =
      (executeStage s.1.latches (bypass s) (stageWrite s.2.registers s.1.latches.memWb)).2.readForwarded := by
    funext r
    rw [step_readForwarded, readForwarded_executeStage]
  rw [hr, step_eq]
  cases hf : flushing s with
  | true => simp [Decision.resolve, Decision.idEx, Action.apply]
  | false =>
    cases hs : stalling s with
    | true => simp [Decision.resolve, Decision.idEx, hd, hs, Action.apply]
    | false =>
      simp only [Decision.resolve, Decision.idEx, hd, hs, Action.apply]
      rfl

/-- Fetch and decode are squashed, wait or advance, all at once. -/
theorem step_front :
    (flushing s = true ∧ (step s).1.latches.idEx = none ∧ (step s).1.latches.ifId = none ∧
      (step s).1.pc = (executing s).elim 0 (·.branchTarget)) ∨
    (flushing s = false ∧ stalling s = true ∧ (step s).1.latches.idEx = none ∧
      (step s).1.latches.ifId = s.1.latches.ifId ∧ (step s).1.pc = s.1.pc) ∨
    (flushing s = false ∧ stalling s = false ∧
      (step s).1.latches.idEx =
        s.1.latches.ifId.map (fun f => ⟨f.decode, f.decode.operands (step s).2.registers.read⟩) ∧
      (step s).1.latches.ifId = some ⟨((accessed s).fetch s.1.pc).1, s.1.pc⟩ ∧ (step s).1.pc = s.1.pc + 4) := by
  rw [step_idEx, step_ifId, step_pc]
  cases hf : flushing s with
  | true => exact Or.inl ⟨rfl, rfl, rfl, rfl⟩
  | false =>
    cases hs : stalling s with
    | true => exact Or.inr (Or.inl ⟨rfl, rfl, rfl, rfl, rfl⟩)
    | false => exact Or.inr (Or.inr ⟨rfl, rfl, rfl, rfl, rfl⟩)

variable {s}

theorem step_read (h : Unstaged s) (r : Reg) :
    (step s).2.registers.read r = afterWriteBack s.1.latches.memWb s.2.registers.read r := by
  rw [step_readForwarded]
  unfold stageWrite afterWriteBack
  cases s.1.latches.memWb with
  | none => exact Registers.readForwarded_of_unstaged _ h.1 r
  | some a =>
    by_cases hw : a.instruction.regWrite
    · simp [hw]
    · simp [hw, Registers.readForwarded_of_unstaged _ h.1 r]

theorem step_flags (h : Unstaged s) : (step s).2.registers.flags =
    match s.1.latches.idEx with
    | some d => if (executeNow s d).1.setFlags then (executeNow s d).2.flags else s.2.registers.flags
    | none => s.2.registers.flags := by
  obtain ⟨hf, hs⟩ := flags_stageWrite s.2.registers s.1.latches.memWb
  rw [step_eq]
  simp only [flags_executeStage, hf, hs, h.2, Option.getD_none]
  rfl

variable (s)

/-! ### The board -/

theorem step_board : (step s).2.board = if holding s then accessed s else ((accessed s).fetch s.1.pc).2 := by
  rw [step_eq]
  rfl

/-! ### Counters and control -/

theorem step_cycles : (step s).1.counters.cycles = s.1.counters.cycles + 1 := by
  rw [step_eq]

theorem step_instructions :
    (step s).1.counters.instructions = s.1.counters.instructions + s.1.latches.memWb.isSome.toNat := by
  rw [step_eq]

theorem step_stalls : (step s).1.counters.stalls = s.1.counters.stalls + (holding s).toNat := by
  rw [step_eq]
  rfl

theorem step_flushes : (step s).1.counters.flushes = s.1.counters.flushes + if flushing s then 2 else 0 := by
  rw [step_eq]
  rfl

theorem step_halted : (step s).1.halted = (s.1.halted || s.1.latches.memWb.any (·.instruction.isSelfBranch)) := by
  rw [step_eq]

theorem step_config : (step s).1.config = s.1.config := by
  rw [step_eq]

/-! ### Where the next latches come from -/

variable {s}

theorem of_mem_step_memWb {a : Accessed} (h : a ∈ (step s).1.latches.memWb) : ∃ e ∈ s.1.latches.exMem,
    a = ⟨e.instruction, e.result, (s.2.board.access e.instruction e.result e.storeValue).1⟩ := by
  rw [step_memWb] at h
  cases he : s.1.latches.exMem with
  | none => simp [he, accessMemory] at h
  | some e =>
    simp only [he, accessMemory, Option.mem_def, Option.some.injEq] at h
    exact ⟨e, rfl, h.symm⟩

theorem of_mem_step_exMem {e : Executed} (h : e ∈ (step s).1.latches.exMem) : ∃ d ∈ s.1.latches.idEx,
    e = .of (executeNow s d).1 (executeNow s d).2 := by
  rw [step_exMem] at h
  obtain ⟨d, hd, rfl⟩ := Option.map_eq_some_iff.mp h
  exact ⟨d, hd, rfl⟩

theorem of_mem_step_idEx {d : Decoded} (h : d ∈ (step s).1.latches.idEx) : ∃ f ∈ s.1.latches.ifId,
    flushing s = false ∧ stalling s = false ∧ d = ⟨f.decode, f.decode.operands (step s).2.registers.read⟩ := by
  rw [step_idEx] at h
  split at h
  · cases h
  · rename_i hn
    obtain ⟨f, hf, rfl⟩ := Option.map_eq_some_iff.mp h
    exact ⟨f, hf, by simpa using hn⟩

/-! ### Which latches are occupied -/

theorem flushing_of_empty (hi : s.1.latches.idEx = none) : flushing s = false := by
  rw [flushing, executing, hi]
  rfl

/-- There is nothing to wait for, whatever the settings. -/
theorem stalling_of_clear (hi : s.1.latches.idEx = none) (hx : s.1.latches.exMem = none) : stalling s = false := by
  rw [stalling, mustStall, hi, hx]
  cases s.1.latches.ifId <;> simp [loadUse, rawHazard]

/-- With forwarding decode waits for what is in execute only. -/
theorem stalling_of_empty (hf : s.1.config.forwarding = true) (hi : s.1.latches.idEx = none) : stalling s = false := by
  rw [stalling, mustStall, hf, hi]
  cases s.1.latches.ifId <;> simp [loadUse]

/-- What waits is in decode. -/
theorem isSome_ifId_of_stalling (h : stalling s = true) : s.1.latches.ifId.isSome := by
  simp only [stalling, mustStall, Bool.and_eq_true] at h
  cases hi : s.1.latches.ifId with
  | none => simp [hi] at h
  | some f => rfl

theorem isSome_idEx_of_flushing (h : flushing s = true) : s.1.latches.idEx.isSome := by
  cases hi : s.1.latches.idEx with
  | none =>
    rw [flushing_of_empty hi] at h
    cases h
  | some d => rfl

theorem isSome_memWb_step : (step s).1.latches.memWb.isSome = s.1.latches.exMem.isSome := by
  rw [step_memWb, isSome_accessMemory]

theorem isSome_exMem_step : (step s).1.latches.exMem.isSome = s.1.latches.idEx.isSome := by
  rw [step_exMem, isSome_executing]

/-- Fetch keeps ahead of decode. -/
theorem filled_step : (step s).1.latches.idEx.isSome → (step s).1.latches.ifId.isSome := by
  obtain ⟨-, hd, -⟩ | ⟨-, -, hd, -⟩ | ⟨-, -, -, hi, -⟩ := step_front s
  · simp [hd]
  · simp [hd]
  · simp [hi]

/-- Behind a branch in execute everything is squashed. -/
theorem squashed_step {e : Executed} (he : e ∈ (step s).1.latches.exMem) (ht : e.branchTaken) :
    (step s).1.latches.idEx = none ∧ (step s).1.latches.ifId = none := by
  rw [step_exMem] at he
  have hf : flushing s = true := by rw [flushing, he]; exact ht
  rw [step_idEx, step_ifId]
  simp [hf]

end Next

end Pipeline

end FiveStageArm
