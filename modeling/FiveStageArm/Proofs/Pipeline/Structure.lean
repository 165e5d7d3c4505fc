/-
  FiveStageArm.Proofs.Pipeline.Structure — how the latches and the fetch address fit
  together, whatever program is in memory and whatever is asked of the pipeline. Fetch is
  one word ahead of IF/ID and IF/ID one word ahead of ID/EX; nothing is in flight behind a
  taken branch; and what a latch holds is the decoding of a word, up to execute as it was
  read and past it with its condition resolved.

  The relations between neighbours are what each way of changing one latch alone could
  break: a stall, a flush, a move of the fetch address. `Intact` is the part of them that a
  cycle carries on, said of the latches as they are; that an address is a word's follows
  down the line from the fetch address. `WellFormed` is the whole, said of the flat records, in
  which a bubble has contents too.

  Proved: a cycle keeps the latches intact (`intact_step`) and so does every other call
  (`Intact.perform`), so their records, which the same calls change in the same way
  (`perform_flatten`), are well formed at every moment (`latches_wellFormed`).
-/

import FiveStageArm.Proofs.Pipeline.Records

namespace FiveStageArm

namespace Pipeline

/-! ## What is said of the records -/

/-- No control signal is set. -/
def Silent (i : Fields) : Prop := i.Inert ∧ i.memToReg = false

/-- An instruction past execute, where the flags were these. -/
structure Resolved (flags : Flags) (i : Fields) : Prop where
  gated : i = (decode i.raw i.pc).fields.gate flags
  condPassed : i.condPassed = i.cond.holds flags
  silent : i.cond.holds flags = false → Silent i

structure WellFormed (pc : Address) (l : LatchFields) : Prop where
  pc_aligned : pc.toNat % 4 = 0
  ifId_aligned : l.ifId.valid → l.ifId.pc.toNat % 4 = 0
  idEx_aligned : l.idEx.valid → l.idEx.pc.toNat % 4 = 0
  exMem_aligned : l.exMem.valid → l.exMem.instruction.pc.toNat % 4 = 0
  memWb_aligned : l.memWb.valid → l.memWb.instruction.pc.toNat % 4 = 0
  /-- A bubble has what a new record has, and raises no signal. -/
  ifId_flushed : l.ifId.valid = false → l.ifId = {}
  idEx_flushed : l.idEx.valid = false → l.idEx = {} ∧ Silent l.idEx.instruction
  exMem_flushed : l.exMem.valid = false → l.exMem = {} ∧ Silent l.exMem.instruction
  memWb_flushed : l.memWb.valid = false → l.memWb = {} ∧ Silent l.memWb.instruction
  fetch_ahead : l.ifId.valid → pc = l.ifId.pc + 4
  decode_behind : l.idEx.valid → l.ifId.valid ∧ l.ifId.pc = l.idEx.pc + 4
  /-- Decode takes every condition to pass. -/
  decoded : l.idEx.valid → l.idEx.instruction = (decode l.idEx.instruction.raw l.idEx.pc).fields
  squashed : l.exMem.valid → l.exMem.branchTaken → l.ifId.valid = false ∧ l.idEx.valid = false
  executed : l.exMem.valid → ∃ flags, Resolved flags l.exMem.instruction
  accessed : l.memWb.valid → ∃ flags, Resolved flags l.memWb.instruction

theorem silent_flushed : Silent {} := ⟨⟨rfl, rfl, rfl, rfl, rfl, rfl⟩, rfl⟩

/-! ## What a cycle carries on -/

/-- A word decoded at its own address. -/
def IsDecoded (i : Instruction) : Prop := i = decode i.raw i.pc

/-- A word decoded at an address a word has, its condition resolved. -/
structure Gated (i : Instruction) : Prop where
  aligned : align i.pc = i.pc
  gated : ∃ flags, i = decodeGated i.raw i.pc flags

structure Intact (p : Pipeline) : Prop where
  pc : align p.pc = p.pc
  ifId : ∀ f ∈ p.latches.ifId, p.pc = f.nextPc
  idEx : ∀ d ∈ p.latches.idEx, IsDecoded d.instruction ∧ ∃ f ∈ p.latches.ifId, f.pc = d.nextPc
  exMem : ∀ e ∈ p.latches.exMem, Gated e.instruction ∧
    (e.branchTaken → p.latches.ifId = none ∧ p.latches.idEx = none)
  memWb : ∀ a ∈ p.latches.memWb, Gated a.instruction

section Addresses

variable {p : Pipeline} (h : Intact p)

include h

theorem Intact.aligned_ifId {f : Fetched} (hf : f ∈ p.latches.ifId) : align f.pc = f.pc := by
  have hp : align (f.pc + 4) = f.pc + 4 := by
    have := h.pc
    rwa [h.ifId f hf] at this
  rw [align_add_four] at hp
  exact (UInt32.add_left_inj 4).mp hp

theorem Intact.aligned_idEx {d : Decoded} (hd : d ∈ p.latches.idEx) :
    align d.instruction.pc = d.instruction.pc := by
  obtain ⟨-, f, hf, e⟩ := h.idEx d hd
  have hp : align (d.instruction.pc + 4) = d.instruction.pc + 4 := by
    have := h.aligned_ifId hf
    rwa [e] at this
  rw [align_add_four] at hp
  exact (UInt32.add_left_inj 4).mp hp

end Addresses

/-! ## One cycle -/

section Cycle

variable {s : Pipeline × Machine} (h : Intact s.1)

include h

/-- Execute resolves the condition and leaves the rest of the instruction as it is. -/
theorem Intact.gated_executeNow {d : Decoded} (hd : d ∈ s.1.latches.idEx) : Gated (executeNow s d).1 := by
  have decoded := (h.idEx d hd).1
  refine ⟨h.aligned_idEx hd, s.2.registers.flags, ?_⟩
  show d.instruction.gate s.2.registers.flags = (decode d.instruction.raw d.instruction.pc).gate s.2.registers.flags
  rw [← decoded]

/-- The register a branch is computed from may hold any value. -/
theorem Intact.aligned_branchTarget {e : Executed} (he : e ∈ executing s) : align e.branchTarget = e.branchTarget := by
  obtain ⟨d, hd, rfl⟩ := Option.map_eq_some_iff.mp he
  have decoded := (h.idEx d hd).1
  have operation : (executeNow s d).1.operation = Decode.operation d.instruction.raw := by
    show d.instruction.operation = _
    rw [decoded]
    rfl
  exact Instruction.aligned_branchTarget operation (h.aligned_idEx hd) _ _

theorem Intact.aligned_pc_step : align (step s).1.pc = (step s).1.pc := by
  rcases step_front s with ⟨-, -, -, hp⟩ | ⟨-, -, -, -, hp⟩ | ⟨-, -, -, -, hp⟩ <;> rw [hp]
  · cases he : executing s with
    | none => rfl
    | some e => exact h.aligned_branchTarget he
  · exact h.pc
  · rw [align_add_four, h.pc]

theorem Intact.ifId_step {f : Fetched} (hf : f ∈ (step s).1.latches.ifId) : (step s).1.pc = f.nextPc := by
  rcases step_front s with ⟨-, -, hi, -⟩ | ⟨-, -, -, hi, hp⟩ | ⟨-, -, -, hi, hp⟩
  · rw [hi] at hf
    cases hf
  · rw [hi] at hf
    rw [hp]
    exact h.ifId f hf
  · rw [hi] at hf
    cases hf
    exact hp

/-- What moves on to decode leaves IF/ID to the word after it. -/
theorem Intact.idEx_step {d : Decoded} (hd : d ∈ (step s).1.latches.idEx) :
    IsDecoded d.instruction ∧ ∃ f ∈ (step s).1.latches.ifId, f.pc = d.nextPc := by
  rcases step_front s with ⟨-, hn, -⟩ | ⟨-, -, hn, -⟩ | ⟨-, -, hm, hi, -⟩
  · rw [hn] at hd
    cases hd
  · rw [hn] at hd
    cases hd
  · rw [hm] at hd
    obtain ⟨g, hg, rfl⟩ := Option.map_eq_some_iff.mp hd
    refine ⟨rfl, _, hi, ?_⟩
    exact h.ifId g hg

theorem intact_step : Intact (step s).1 := by
  refine ⟨h.aligned_pc_step, fun f hf => h.ifId_step hf, fun d hd => h.idEx_step hd, fun e he => ⟨?_, fun taken => ?_⟩,
    fun a ha => ?_⟩
  · obtain ⟨d, hd, rfl⟩ := of_mem_step_exMem he
    exact h.gated_executeNow hd
  · exact (squashed_step he taken).symm
  · obtain ⟨e, he, rfl⟩ := of_mem_step_memWb ha
    exact (h.exMem e he).1

end Cycle

/-! ## Any calls -/

theorem intact_fresh : Intact .fresh := by
  constructor <;> simp [fresh, Latches.empty, align]

/-- The two latches on the old path are dropped together. -/
theorem Intact.setPc {p : Pipeline} (h : Intact p) (a : Address) : Intact (p.setPc a) := by
  refine ⟨align_align a, ?_, ?_, fun e he => ⟨(h.exMem e he).1, fun _ => ⟨rfl, rfl⟩⟩, h.memWb⟩
  · intro f hf
    cases hf
  · intro d hd
    cases hd

theorem Intact.perform {s : Pipeline × Machine} (h : Intact s.1) {c : Call} (hc : c.clocked = false) :
    Intact (c.perform s).1 := by
  cases c with
  | setPc a => exact h.setPc a
  | reset => exact ⟨intact_fresh.pc, intact_fresh.ifId, intact_fresh.idEx, intact_fresh.exMem, intact_fresh.memWb⟩
  | configure change => exact ⟨h.pc, h.ifId, h.idEx, h.exMem, h.memWb⟩
  | setBreakpoints change => exact ⟨h.pc, h.ifId, h.idEx, h.exMem, h.memWb⟩
  | step | cycle | run _ => cases hc

theorem Gated.resolved {i : Instruction} (h : Gated i) : ∃ flags, Resolved flags i.fields := by
  obtain ⟨flags, e⟩ := h.gated
  have gated : i.fields = (decode i.raw i.pc).fields.gate flags := by
    rw [Instruction.gate_fields rfl]
    exact congrArg Instruction.fields e
  obtain ⟨condPassed, silent⟩ := (decode i.raw i.pc).fields.inert_gate flags
  have cond : i.fields.cond = (decode i.raw i.pc).fields.cond := by rw [gated, Fields.cond_gate]
  refine ⟨flags, ?_, ?_, ?_⟩
  · rw [Instruction.raw_fields, Instruction.pc_fields, ← gated]
  · rw [cond, gated, condPassed]
  · rw [cond, gated]
    exact silent

/-! ## The records of the latches -/

section Records

variable {α β : Type} {valid : β → Bool} {flushed : β} {fields : α → β} {latch : Option α}

theorem exists_mem_of_valid (hd : valid flushed = false) (h : valid (latch.elim flushed fields)) :
    ∃ a ∈ latch, latch.elim flushed fields = fields a := by
  cases latch with
  | none =>
    rw [Option.elim_none, hd] at h
    cases h
  | some a => exact ⟨a, rfl, rfl⟩

theorem flushed_of_invalid (hf : ∀ a, valid (fields a)) (h : valid (latch.elim flushed fields) = false) :
    latch.elim flushed fields = flushed := by
  cases latch with
  | none => rfl
  | some a =>
    rw [Option.elim_some, hf a] at h
    cases h

theorem silent_of_invalid (instruction : β → Fields) (hs : Silent (instruction flushed)) (hf : ∀ a, valid (fields a))
    (h : valid (latch.elim flushed fields) = false) :
    latch.elim flushed fields = flushed ∧ Silent (instruction (latch.elim flushed fields)) := by
  have e := flushed_of_invalid hf h
  rw [e]
  exact ⟨rfl, hs⟩

variable {l : Latches}

theorem mem_of_valid_ifId (h : l.fields.ifId.valid) : ∃ f ∈ l.ifId, l.fields.ifId = f.fields :=
  exists_mem_of_valid rfl h

theorem mem_of_valid_idEx (h : l.fields.idEx.valid) : ∃ d ∈ l.idEx, l.fields.idEx = d.fields :=
  exists_mem_of_valid rfl h

theorem mem_of_valid_exMem (h : l.fields.exMem.valid) : ∃ e ∈ l.exMem, l.fields.exMem = e.fields :=
  exists_mem_of_valid rfl h

theorem mem_of_valid_memWb (h : l.fields.memWb.valid) : ∃ a ∈ l.memWb, l.fields.memWb = a.fields :=
  exists_mem_of_valid rfl h

end Records

theorem Intact.wellFormed {p : Pipeline} (h : Intact p) : WellFormed p.pc p.latches.fields := by
  constructor
  case pc_aligned => exact align_eq_self.mp h.pc
  case ifId_flushed => exact flushed_of_invalid fun _ => rfl
  case idEx_flushed => exact silent_of_invalid DecodedFields.instruction silent_flushed fun _ => rfl
  case exMem_flushed => exact silent_of_invalid ExecutedFields.instruction silent_flushed fun _ => rfl
  case memWb_flushed => exact silent_of_invalid AccessedFields.instruction silent_flushed fun _ => rfl
  case ifId_aligned =>
    intro hv
    obtain ⟨f, hf, e⟩ := mem_of_valid_ifId hv
    rw [e]
    exact align_eq_self.mp (h.aligned_ifId hf)
  case idEx_aligned =>
    intro hv
    obtain ⟨d, hd, e⟩ := mem_of_valid_idEx hv
    rw [e]
    exact align_eq_self.mp (h.aligned_idEx hd)
  case exMem_aligned =>
    intro hv
    obtain ⟨x, hx, e⟩ := mem_of_valid_exMem hv
    rw [e, Executed.fields, Instruction.pc_fields]
    exact align_eq_self.mp (h.exMem x hx).1.aligned
  case memWb_aligned =>
    intro hv
    obtain ⟨a, ha, e⟩ := mem_of_valid_memWb hv
    rw [e, Accessed.fields, Instruction.pc_fields]
    exact align_eq_self.mp (h.memWb a ha).aligned
  case fetch_ahead =>
    intro hv
    obtain ⟨f, hf, e⟩ := mem_of_valid_ifId hv
    rw [e]
    exact h.ifId f hf
  case decode_behind =>
    intro hv
    obtain ⟨d, hd, e⟩ := mem_of_valid_idEx hv
    obtain ⟨-, f, hf, behind⟩ := h.idEx d hd
    have hi : p.latches.fields.ifId = f.fields := congrArg (·.elim {} (·.fields)) hf
    rw [e, hi]
    exact ⟨rfl, behind⟩
  case decoded =>
    intro hv
    obtain ⟨d, hd, e⟩ := mem_of_valid_idEx hv
    rw [e, Decoded.fields, Instruction.raw_fields, ← (h.idEx d hd).1]
  case squashed =>
    intro hv taken
    obtain ⟨x, hx, e⟩ := mem_of_valid_exMem hv
    rw [e] at taken
    obtain ⟨hi, hd⟩ := (h.exMem x hx).2 taken
    rw [Latches.fields, hi, hd]
    exact ⟨rfl, rfl⟩
  case executed =>
    intro hv
    obtain ⟨x, hx, e⟩ := mem_of_valid_exMem hv
    rw [e]
    exact (h.exMem x hx).1.resolved
  case accessed =>
    intro hv
    obtain ⟨a, ha, e⟩ := mem_of_valid_memWb hv
    rw [e]
    exact (h.memWb a ha).resolved

/-- Whatever is in memory and whatever calls are made, the latches are well formed at every
    clock edge and after every call. The records are changed one by one as the calls say, and
    those the pipeline's latches stand for are the same. -/
theorem latches_wellFormed (m : Machine) (calls : List Call) :
    (∀ t ∈ Flat.trail calls (.fresh, m), WellFormed t.1.pc t.1.latches) ∧
      WellFormed (Flat.perform calls (.fresh, m)).1.pc (Flat.perform calls (.fresh, m)).1.latches ∧
      Flat.trail calls (.fresh, m) = (trail calls (.fresh, m)).map flatten ∧
      Flat.perform calls (.fresh, m) = flatten (perform calls (.fresh, m)) := by
  have between : ∀ c ∈ calls, c.clocked = false → ∀ s : Pipeline × Machine, Intact s.1 → Intact (c.perform s).1 :=
    fun _ _ hc _ hs => hs.perform hc
  obtain ⟨during, after⟩ := perform_induction (P := fun s => Intact s.1) (fun _ => intact_step) between
    (s := (.fresh, m)) intact_fresh
  obtain ⟨met, reached⟩ : Flat.trail calls (.fresh, m) = (trail calls (.fresh, m)).map flatten ∧
      Flat.perform calls (.fresh, m) = flatten (perform calls (.fresh, m)) := perform_flatten (unresolved_fresh m) calls
  refine ⟨fun t ht => ?_, ?_, met, reached⟩
  · obtain ⟨s, hs, rfl⟩ := List.mem_map.mp (met ▸ ht)
    exact (during s hs).wellFormed
  · rw [reached]
    exact after.wellFormed

end Pipeline

end FiveStageArm
