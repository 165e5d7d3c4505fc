/-
  FiveStageArm.Proofs.Skipping — instructions that do nothing: those whose condition fails,
  and the words this machine has no operation for, whatever their condition.

  Such an instruction raises no control signal, so each of the places where an instruction
  takes effect leaves things as they are: the flags it would set, the register and R15, the
  data access, the link, the halt of a branch to itself. What is left of the step is its
  fetch, which counts itself and may take a byte off a UART's queue.

  Proved: one step of the single-cycle core over such an instruction is its fetch, 4 added
  to the address and 1 to both counters (`inactive_only_fetches`).
-/

import FiveStageArm.Proofs.Isa.Control
import FiveStageArm.Proofs.SingleCycle

namespace FiveStageArm

/-! ## What a fetch does -/

/-- A device before and after a word is read from it. -/
inductive Device.ReadFrom : Device → Device → Prop where
  | unchanged (d : Device) : ReadFrom d d
  | counted (m : Memory) : ReadFrom (.memory m) (.memory m.countRead)
  /-- The oldest byte is off the queue. -/
  | taken (u : Uart) : ReadFrom (.uart u) (.uart { u with received := u.received.tail })

theorem Device.readFrom_readWord (d : Device) (o : Address) : d.ReadFrom (d.readWord o).2 := by
  cases d with
  | memory m => exact .counted m
  | uart u =>
    simp only [readWord, Uart.readWord]
    split
    · exact .taken u
    · exact .unchanged _
  | gpio g => exact .unchanged _

namespace Bus

variable {n : Nat} (b : Bus n) (a : Address)

theorem readFrom_fetch (i : Fin n) : (b.devices.get i).ReadFrom ((b.fetch a).2.devices.get i) := by
  unfold fetch readWordAt
  split
  · exact .unchanged _
  · rename_i r _
    simp only []
    rw [get_setDevice]
    split
    · rename_i same
      rw [← same]
      exact Device.readFrom_readWord _ _
    · exact .unchanged _

/-- A fetch is not counted as an access to data. -/
theorem accesses_fetch : (b.fetch a).2.reads = b.reads ∧ (b.fetch a).2.writes = b.writes := by
  unfold fetch readWordAt
  split
  · exact ⟨rfl, rfl⟩
  · exact ⟨rfl, rfl⟩

end Bus

/-! ## Where nothing happens -/

namespace Instruction

variable {i : Instruction} (h : i.Inactive)

include h

theorem branchTaken_of_inactive (ops : Operands) (f : Flags) : (i.execute ops f).branchTaken = false := by
  obtain ⟨-, write, -, -, branch, -⟩ := h.signals
  cases ho : i.operation with
  | dataProcessing op s rn rd operand => simp [execute, ho, write]
  | branch link offset => simp [execute, ho, branch]
  | multiply | transfer | coprocessor | undefined => simp [execute, ho]

theorem isSelfBranch_of_inactive : i.isSelfBranch = false := by
  rcases h with h | h | h
  · unfold isSelfBranch
    split
    · simp [h]
    · rfl
  · simp [isSelfBranch, h]
  · simp [isSelfBranch, h]

theorem access_of_inactive {n : Nat} (b : Bus n) (a : Address) (v : Word) : b.access i a v = (0, b) := by
  obtain ⟨-, -, load, store, -, -⟩ := h.signals
  simp [Bus.access, load, store]

end Instruction

namespace SingleCycle

theorem writeBack_of_inactive {i : Instruction} (h : i.Inactive) (s : Registers) (v : Word) (f : Flags) :
    writeBack s i v f = s := by
  obtain ⟨flags, write, -, -, -, -⟩ := h.signals
  simp [writeBack, flags, write]

theorem retire_of_inactive (s : SingleCycle × Machine) (h : (current s).Inactive) :
    retire s =
      ({ s.1 with
          pc := s.1.pc + 4, cycles := s.1.cycles + 1, instructions := s.1.instructions + 1, halted := false
          last := some (current s) },
        ⟨(s.2.board.fetch s.1.pc).2, s.2.registers⟩) := by
  have untaken : taken s = false := (current s).branchTaken_of_inactive h _ _
  have board : (retire s).2.board = (s.2.board.fetch s.1.pc).2 := by
    rw [retire_board, access, Instruction.access_of_inactive h]
  have registers : (retire s).2.registers = s.2.registers := by
    rw [retire_registers, writeBack_of_inactive h]
  have core : (retire s).1 =
      { s.1 with
        pc := if taken s then (outcome s).branchTarget else s.1.pc + 4
        cycles := s.1.cycles + 1, instructions := s.1.instructions + 1, halted := (current s).isSelfBranch
        last := some (current s) } := rfl
  rw [untaken, Instruction.isSelfBranch_of_inactive h] at core
  exact Prod.ext core (congrArg₂ Machine.mk board registers)

/-- No register or flag has changed from `s` to `t`, nothing was accessed but the word fetched,
    and the core is at the next word, running. -/
structure OnlyFetched (s t : SingleCycle × Machine) : Prop where
  core : t.1 =
    { s.1 with
      pc := s.1.pc + 4, cycles := s.1.cycles + 1, instructions := s.1.instructions + 1, halted := false
      last := some (current s) }
  registers : t.2.registers = s.2.registers
  board : t.2.board = (s.2.board.fetch s.1.pc).2
  reads : t.2.board.reads = s.2.board.reads
  writes : t.2.board.writes = s.2.board.writes
  devices : ∀ i, (s.2.board.devices.get i).ReadFrom (t.2.board.devices.get i)

/-- A step over a word whose condition fails, or that is no operation of this machine, is the
    fetch of that word and nothing else. The fetch is counted and may take a byte off a UART's
    queue. -/
theorem inactive_only_fetches (s : SingleCycle × Machine) (running : s.1.halted = false)
    (inactive : (decode (word s) s.1.pc).cond.holds s.2.registers.flags = false ∨
      (decode (word s) s.1.pc).operation = .coprocessor ∨ (decode (word s) s.1.pc).operation = .undefined) :
    OnlyFetched s (step s) := by
  have h : (current s).Inactive := inactive
  obtain ⟨reads, writes⟩ := s.2.board.accesses_fetch s.1.pc
  rw [step_of_running s running, retire_of_inactive s h]
  exact ⟨rfl, rfl, rfl, reads, writes, s.2.board.readFrom_fetch s.1.pc⟩

/-- A core that runs into the UART's DATA word fetches received bytes. The byte 5 is AND with
    the condition EQ, which fails on cleared flags. -/
theorem inactive_only_fetches_received :
    let s : SingleCycle × Machine := ({ fresh with pc := Board.uartBase }, ⟨Board.empty.inject [5, 7], .zero⟩)
    s.1.halted = false ∧ (decode (word s) s.1.pc).cond.holds s.2.registers.flags = false ∧
      (step s).1.pc = 0xFFFF0004 ∧ (step s).2.registers = .zero ∧ (step s).2.board.uart.received = [7] := by
  intro s
  have running : s.1.halted = false := rfl
  have skipped : (decode (word s) s.1.pc).cond.holds s.2.registers.flags = false := by decide +kernel
  have fetched := inactive_only_fetches s running (.inl skipped)
  refine ⟨running, skipped, ?_, fetched.registers, ?_⟩
  · rw [fetched.core]
    rfl
  · rw [fetched.board]
    decide +kernel

end SingleCycle

end FiveStageArm
