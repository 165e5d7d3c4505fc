/-
  FiveStageArm.Proofs.SingleCycle — one instruction of the single-cycle core taken apart,
  and whole runs of the core.

  A run is a sequence of states, each a step after the one before it. It may have been
  redirected on the way: up to its `start` the address of the next instruction is left
  open, and everything else follows the core (`Run`).

  Proved:
  - What an instruction leaves in the registers (`Run.read_succ`, `Run.flags_succ`).
  - The word at an address is the same before and after an instruction that does not store
    to it, as long as neither its fetch nor its load touches the UART's queue words
    (`Run.peek_succ`).
  - A run of the core takes the fewest steps after which it may end (`stopsFirst_run`).
-/

import FiveStageArm.Proofs.Bus.Wired
import FiveStageArm.Proofs.Isa.Sources
import FiveStageArm.Proofs.Registers
import FiveStageArm.Proofs.RunControl

namespace FiveStageArm

/-- What an instruction leaves in the record: itself, its condition resolved, and the
    register it writes, R15 apart. -/
structure Retirement where
  instruction : Instruction
  written : Option (Reg × Word)
  deriving DecidableEq

def Retirement.of (i : Instruction) (value : Word) : Retirement :=
  ⟨i, if i.regWrite && i.rd != .pc then some (i.rd, value) else none⟩

namespace SingleCycle

/-! ## The parts of an instruction -/

section Parts

variable (s : SingleCycle × Machine)

def word : Word := (s.2.board.fetch s.1.pc).1

/-- The instruction about to be executed, its condition resolved. -/
def current : Instruction := decodeGated (word s) s.1.pc s.2.registers.flags

def operands : Operands := (current s).operands s.2.registers.read

def outcome : Outcome := (current s).execute (operands s) s.2.registers.flags

/-- What the bus hands back, and the board afterwards. -/
def access : Word × Board := (s.2.board.fetch s.1.pc).2.access (current s) (outcome s).result (outcome s).storeValue

/-- What goes to the destination register. -/
def value : Word := if (current s).memRead then (access s).1 else (outcome s).result

def retirement : Retirement := .of (current s) (value s)

/-- The instruction redirects fetch. -/
def taken : Bool := (outcome s).branchTaken

theorem retire_board : (retire s).2.board = (access s).2 := rfl

theorem retire_registers :
    (retire s).2.registers = writeBack s.2.registers (current s) (value s) (outcome s).flags := rfl

theorem retire_pc : (retire s).1.pc = if taken s then (outcome s).branchTarget else s.1.pc + 4 := rfl

theorem retire_halted : (retire s).1.halted = (current s).isSelfBranch := rfl

theorem word_eq_peek : word s = s.2.board.peek s.1.pc := Bus.fetch_fst _ _

theorem taken_of_isSelfBranch (h : (current s).isSelfBranch) : taken s :=
  Instruction.branchTaken_of_isSelfBranch _ h _ _

theorem step_of_running (h : s.1.halted = false) : step s = retire s := by simp [step, h]

theorem step_of_halted (h : s.1.halted = true) : step s = s := by simp [step, h]

theorem build_step : (step s).2.board.build = s.2.board.build := by
  unfold step
  split
  · rfl
  · rw [retire_board, access, Bus.build_access, Bus.build_fetch]

/-- The instruction stores to the word at `a` and changes it. -/
def Overwrites (a : Address) : Prop :=
  (current s).memWrite ∧ align (outcome s).result = align a ∧ (access s).2.peek a ≠ s.2.board.peek a

end Parts

/-! ## Runs -/

theorem breakpoints_step (s : SingleCycle × Machine) : (step s).1.breakpoints = s.1.breakpoints := by
  unfold step
  split <;> rfl

theorem stopsFirst_run (s : SingleCycle × Machine) :
    StopsFirst (·.1.halted) (·.1.pc ∈ s.1.breakpoints) step run s := by
  refine stopsFirst_runFrom (·.1.pc) (·.1.breakpoints) (fun t => ?_) breakpoints_step s
  simp [stops]

/-- From `start` on every state is a step after the one before it; up to there it is so
    but for the address of the next instruction. -/
structure Run (start : Nat) (σ : Nat → SingleCycle × Machine) : Prop where
  wired : (σ 0).2.board.Wired
  machine : ∀ k, (σ (k + 1)).2 = (step (σ k)).2
  halted : ∀ k, (σ (k + 1)).1.halted = (step (σ k)).1.halted
  pc : ∀ k, start ≤ k → (σ (k + 1)).1.pc = (step (σ k)).1.pc

/-- No store changes a word from which one of the next two instructions is fetched. -/
def StoresClear (σ : Nat → SingleCycle × Machine) : Prop :=
  ∀ k j, j = 1 ∨ j = 2 → (σ (k + j)).1.halted = false → ¬Overwrites (σ k) (σ (k + j)).1.pc

theorem StoresClear.zero_add {σ : Nat → SingleCycle × Machine} (h : StoresClear σ) :
    StoresClear fun k => σ (0 + k) := by
  simpa only [Nat.zero_add] using h

theorem run_iterate (s : SingleCycle × Machine) (h : s.2.board.Wired) : Run 0 (fun k => step^[k] s) where
  wired := h
  machine k := by rw [Function.iterate_succ_apply']
  halted k := by rw [Function.iterate_succ_apply']
  pc k _ := by rw [Function.iterate_succ_apply']

namespace Run

variable {start : Nat} {σ : Nat → SingleCycle × Machine} (run : Run start σ)

include run

theorem machine_succ {k : Nat} (h : (σ k).1.halted = false) : (σ (k + 1)).2 = (retire (σ k)).2 := by
  rw [run.machine, step_of_running _ h]

theorem halted_succ {k : Nat} (h : (σ k).1.halted = false) : (σ (k + 1)).1.halted = (current (σ k)).isSelfBranch := by
  rw [run.halted, step_of_running _ h, retire_halted]

theorem pc_succ {k : Nat} (hk : start ≤ k) (h : (σ k).1.halted = false) :
    (σ (k + 1)).1.pc = if taken (σ k) then (outcome (σ k)).branchTarget else (σ k).1.pc + 4 := by
  rw [run.pc k hk, step_of_running _ h, retire_pc]

theorem wired_at (k : Nat) : (σ k).2.board.Wired := by
  induction k with
  | zero => exact run.wired
  | succ k ih =>
    rw [run.machine]
    exact ih.of_build (build_step _)

theorem running_of_le {j k : Nat} (hjk : j ≤ k) (h : (σ k).1.halted = false) : (σ j).1.halted = false := by
  induction hjk with
  | refl => exact h
  | @step k _ ih =>
    refine ih ?_
    cases hk : (σ k).1.halted with
    | false => rfl
    | true => rw [run.halted, step_of_halted _ hk, hk] at h; exact h

/-! ## What an instruction changes -/

theorem read_succ {k : Nat} (h : (σ k).1.halted = false) {r : Reg} (hr : r ≠ .pc) :
    (σ (k + 1)).2.registers.read r =
      if (current (σ k)).regWrite ∧ (current (σ k)).rd = r then value (σ k) else (σ k).2.registers.read r := by
  rw [run.machine_succ h, retire_registers, read_writeBack _ _ _ _ hr]

theorem flags_succ {k : Nat} (h : (σ k).1.halted = false) :
    (σ (k + 1)).2.registers.flags =
      if (current (σ k)).setFlags then (outcome (σ k)).flags else (σ k).2.registers.flags := by
  rw [run.machine_succ h, retire_registers, flags_writeBack]

theorem board_succ {k : Nat} (h : (σ k).1.halted = false) : (σ (k + 1)).2.board = (access (σ k)).2 := by
  rw [run.machine_succ h, retire_board]

theorem peek_succ {k : Nat} (h : (σ k).1.halted = false) {a : Address} (hf : align (σ k).1.pc ≠ Board.uartBase)
    (hq : ¬Bus.Wired.QueueWord a) (ho : ¬Overwrites (σ k) a) : (σ (k + 1)).2.board.peek a = (σ k).2.board.peek a := by
  have hw := run.wired_at k
  have fetched : ((σ k).2.board.fetch (σ k).1.pc).2.peek a = (σ k).2.board.peek a :=
    hw.peek_fetch fun e => absurd e hf
  rw [run.board_succ h]
  by_cases hs : (current (σ k)).memWrite ∧ align (outcome (σ k)).result = align a
  · by_contra hne
    exact ho ⟨hs.1, hs.2, hne⟩
  rw [← fetched]
  have hw' := hw.fetch (σ k).1.pc
  unfold access Bus.access
  split
  · split
    · exact hw'.peek_readByte fun _ => hq
    · exact hw'.peek_read fun _ => hq
  split
  · rename_i hm
    have apart : align (outcome (σ k)).result ≠ align a := fun e => hs ⟨hm, e⟩
    split
    · exact hw'.peek_writeByte _ apart
    · exact hw'.peek_write _ apart
  · rfl

/-- A word about to be fetched is there already before the instructions just ahead of it. -/
theorem peek_of_clear (clear : StoresClear fun k => σ (start + k)) {k j : Nat} (hk : start ≤ k) (hj : j = 1 ∨ j = 2)
    (hl : (σ (k + j)).1.halted = false) (hf : align (σ k).1.pc ≠ Board.uartBase)
    (hq : ¬Bus.Wired.QueueWord (σ (k + j)).1.pc) :
    (σ (k + 1)).2.board.peek (σ (k + j)).1.pc = (σ k).2.board.peek (σ (k + j)).1.pc := by
  refine run.peek_succ (run.running_of_le (by omega) hl) hf hq ?_
  obtain ⟨i, rfl⟩ := Nat.exists_eq_add_of_le hk
  rw [Nat.add_assoc] at hl ⊢
  exact clear i j hj hl

end Run

instance (s : SingleCycle × Machine) (a : Address) : Decidable (Overwrites s a) :=
  inferInstanceAs (Decidable (_ ∧ _ ∧ _))

/-- For a program that halts there are finitely many stores to look at. -/
theorem storesClear_of_halted {s : SingleCycle × Machine} {n : Nat} (wired : s.2.board.Wired)
    (halted : (step^[n] s).1.halted = true)
    (h : ∀ k, k < n → ¬Overwrites (step^[k] s) (step^[k + 1] s).1.pc ∧ ¬Overwrites (step^[k] s) (step^[k + 2] s).1.pc) :
    StoresClear (fun k => step^[k] s) := by
  intro k j hj hl
  rcases Nat.lt_or_ge k n with hk | hk
  · rcases hj with rfl | rfl
    · exact (h k hk).1
    · exact (h k hk).2
  · have running : (step^[n] s).1.halted = false := (run_iterate s wired).running_of_le (by omega : n ≤ k + j) hl
    rw [halted] at running
    cases running

end SingleCycle

end FiveStageArm
