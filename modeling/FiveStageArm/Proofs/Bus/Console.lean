/-
  FiveStageArm.Proofs.Bus.Console — nothing on a machine looks at what is on the console.
  Bytes are only ever put on top of it, so what was there before stays at the bottom and
  nothing else comes out differently.

  Proved: every access leaves what it would have left, and hands back what it would have
  handed back, had nothing been on the console (`earlier_access`, `earlier_fetch`); and so do
  a step of the single-cycle core and a cycle of the pipeline (`SingleCycle.step_earlier`,
  `Pipeline.cycle_earlier`).
-/

import FiveStageArm.Proofs.Pipeline.Cycle
import FiveStageArm.SingleCycle

namespace FiveStageArm

namespace Bus

/-- The bus, had `l` been put on its console before everything else, newest byte first. -/
def earlier (b : Bus n) (l : List Byte) : Bus n := { b with console := b.console ++ l }

variable (b : Bus n) (l : List Byte)

theorem earlier_settle (i : Fin n) (x : Device × Option Byte) :
    (b.earlier l).settle i x = (b.settle i x).earlier l := by
  obtain ⟨d, echoed⟩ := x
  cases echoed <;> rfl

theorem find?_earlier (a : Address) : (b.earlier l).find? a = b.find? a := rfl

theorem earlier_readWordAt (a : Address) :
    (b.earlier l).readWordAt a = ((b.readWordAt a).1, (b.readWordAt a).2.earlier l) := by
  simp only [readWordAt, find?_earlier]
  cases b.find? a <;> rfl

theorem earlier_fetch (a : Address) : (b.earlier l).fetch a = ((b.fetch a).1, (b.fetch a).2.earlier l) :=
  earlier_readWordAt { b with fetches := b.fetches + 1 } l (align a)

theorem earlier_read (a : Address) : (b.earlier l).read a = ((b.read a).1, (b.read a).2.earlier l) :=
  earlier_readWordAt { b with reads := b.reads + 1 } l (align a)

theorem earlier_readByte (a : Address) : (b.earlier l).readByte a = ((b.readByte a).1, (b.readByte a).2.earlier l) := by
  have counted : { b.earlier l with reads := (b.earlier l).reads + 1 } = { b with reads := b.reads + 1 }.earlier l := rfl
  simp only [readByte, counted, find?_earlier]
  split <;> rfl

theorem earlier_write (a : Address) (w : Word) : (b.earlier l).write a w = (b.write a w).earlier l := by
  have counted : { b.earlier l with writes := (b.earlier l).writes + 1 } = { b with writes := b.writes + 1 }.earlier l :=
    rfl
  simp only [write, counted, find?_earlier]
  split
  · rfl
  · exact earlier_settle _ _ _ _

theorem earlier_writeByte (a : Address) (v : Byte) : (b.earlier l).writeByte a v = (b.writeByte a v).earlier l := by
  have counted : { b.earlier l with writes := (b.earlier l).writes + 1 } = { b with writes := b.writes + 1 }.earlier l :=
    rfl
  simp only [writeByte, counted, find?_earlier]
  split
  · rfl
  · exact earlier_settle _ _ _ _

theorem earlier_access (i : Instruction) (a : Address) (stored : Word) :
    (b.earlier l).access i a stored = ((b.access i a stored).1, (b.access i a stored).2.earlier l) := by
  unfold access
  simp only [earlier_readByte, earlier_read, earlier_write, earlier_writeByte]
  split
  · split <;> rfl
  split
  · split <;> rfl
  · rfl

end Bus

/-- The machine, had `l` been put on its console before everything else. -/
def Machine.earlier (m : Machine) (l : List Byte) : Machine := { m with board := m.board.earlier l }

/-! ## The cores -/

namespace SingleCycle

theorem step_earlier (c : SingleCycle) (m : Machine) (l : List Byte) :
    step (c, m.earlier l) = ((step (c, m)).1, (step (c, m)).2.earlier l) := by
  unfold step
  by_cases hh : c.halted
  · rw [if_pos hh, if_pos hh]
  · rw [if_neg hh, if_neg hh]
    simp only [retire, Machine.earlier, Bus.earlier_fetch, Bus.earlier_access]

end SingleCycle

namespace Pipeline

theorem accessMemory_earlier (b : Board) (l : List Byte) (exMem : Option Executed) :
    accessMemory (b.earlier l) exMem = ((accessMemory b exMem).1, (accessMemory b exMem).2.earlier l) := by
  cases exMem with
  | none => rfl
  | some e => simp only [accessMemory, Bus.earlier_access]

theorem step_earlier (p : Pipeline) (m : Machine) (l : List Byte) :
    step (p, m.earlier l) = ((step (p, m)).1, (step (p, m)).2.earlier l) := by
  have access : accessed (p, m.earlier l) = (accessed (p, m)).earlier l :=
    (Prod.ext_iff.mp (accessMemory_earlier m.board l p.latches.exMem)).2
  have loaded : (accessMemory (m.earlier l).board p.latches.exMem).1 = (accessMemory m.board p.latches.exMem).1 :=
    (Prod.ext_iff.mp (accessMemory_earlier m.board l p.latches.exMem)).1
  have flush : flushing (p, m.earlier l) = flushing (p, m) := rfl
  rw [step_eq, step_eq]
  simp only [access, loaded, flush, Bus.earlier_fetch]
  cases ((Decision.evaluate p.config p.latches).resolve (flushing (p, m))).holds <;> rfl

theorem cycle_earlier (p : Pipeline) (m : Machine) (l : List Byte) :
    cycle (p, m.earlier l) = ((cycle (p, m)).1, (cycle (p, m)).2.earlier l) := by
  unfold cycle
  by_cases hh : p.halted
  · rw [if_pos hh, if_pos hh]
  · rw [if_neg hh, if_neg hh, step_earlier]

end Pipeline

end FiveStageArm
