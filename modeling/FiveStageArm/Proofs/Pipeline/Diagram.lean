/-
  FiveStageArm.Proofs.Pipeline.Diagram — the diagram a trace makes of the instructions that
  retire. Before every cycle fetch may be redirected and the settings changed; only the trace
  stays on (`Turn`, `traced`).

  What a cycle records is taken from the latches after it, the retiring instruction apart,
  so an instruction is marked `IF` in the cycle that fetches it, `st` in every cycle that
  leaves it in decode, and then once in each stage it passes (`Went`). It waits two cycles at
  most: by then nothing is in execute or in memory any more (`Diagonal.fetch`).

  Proved: every cycle keeps that so of all that is in flight (`diagonal_step`), and the trace
  has all that has been recorded within its window (`keeps_traced`). Hence the cells of an
  instruction that retires lie on a diagonal (`retired_diagonal`).
-/

import FiveStageArm.Proofs.Pipeline.Progress
import Mathlib.Data.List.TakeWhile

namespace FiveStageArm

namespace Pipeline

open Trace (Entry labelsIn Keeps)

/-! ## Traced runs -/

/-- What is done before a cycle. -/
structure Turn where
  redirect : Option Address
  forwarding : Bool
  hazardDetection : Bool

def Turn.begin (t : Turn) (s : Pipeline × Machine) : Pipeline × Machine :=
  withConfig (t.redirect.elim s.1 s.1.setPc, s.2) ⟨t.forwarding, t.hazardDetection, true⟩

/-- The states after each cycle, traced, when cycle `k` is begun with the turn `turns k`. -/
def traced (turns : Nat → Turn) (s : Pipeline × Machine) : Nat → Pipeline × Machine
  | 0 => s
  | k + 1 => step ((turns k).begin (traced turns s k))

/-- As construction and `reset` leave a pipeline, its trace included. -/
structure Blank (p : Pipeline) : Prop extends Unstarted p where
  trace : p.trace = .ofHistory Trace.defaultHistory

theorem blank_fresh : Blank .fresh := ⟨unstarted_fresh, rfl⟩

theorem blank_reset {p : Pipeline} (history : p.trace.history = Trace.defaultHistory) (m : Machine) :
    Blank (p.reset m).1 := by
  refine ⟨unstarted_reset p m, ?_⟩
  show p.trace.clear = _
  rw [Trace.clear, history]
  rfl

/-- If the cycle is inside the window, the label is one of those its cell shows. -/
def Trace.Shows (t : Trace) (pc : Address) (cycle : Nat) (label : String) : Prop :=
  t.first ≤ cycle → cycle ≤ t.last → ∃ labels, label ∈ labels ∧ t.stageAt pc cycle = "/".intercalate labels

/-! ## What a cycle records -/

def stageEntry (cycle : Nat) (stage : String) (i : Instruction) : Entry := ⟨cycle, i.pc, i.text, stage⟩

def frontEntry (cycle : Nat) (b : Board) (held : Bool) (f : Fetched) : Entry :=
  ⟨cycle, f.pc, disassemble (b.peek f.pc) f.pc, if held then "st" else "IF"⟩

def stageEntries (cycle : Nat) (b : Board) (l : Latches) (held : Bool) (retired : Option Accessed) : List Entry :=
  (l.ifId.map (frontEntry cycle b held)).toList ++
    ((l.idEx.map fun d => stageEntry cycle "ID" d.instruction).toList ++
    ((l.exMem.map fun e => stageEntry cycle "EX" e.instruction).toList ++
    ((l.memWb.map fun a => stageEntry cycle "MEM" a.instruction).toList ++
    (retired.map fun a => stageEntry cycle "WB" a.instruction).toList)))

theorem recordStages_eq (t : Trace) (cycle : Nat) (b : Board) (l : Latches) (held : Bool) (retired : Option Accessed) :
    recordStages t cycle b l held retired = t.replay (stageEntries cycle b l held retired) := by
  obtain ⟨ifId, idEx, exMem, memWb⟩ := l
  cases ifId <;> cases idEx <;> cases exMem <;> cases memWb <;> cases retired <;> rfl

section Recorded

variable (s : Pipeline × Machine)

/-- What the next cycle records. -/
def recorded : List Entry :=
  stageEntries (s.1.counters.cycles + 1) (step s).2.board (step s).1.latches (holding s) s.1.latches.memWb

variable {s}

theorem step_trace (on : s.1.config.trace) : (step s).1.trace = s.1.trace.replay (recorded s) := by
  rw [recorded, ← recordStages_eq, step_eq]
  exact if_pos on

theorem mem_recorded {n : Nat} (now : s.1.counters.cycles = n) {e : Entry} : e ∈ recorded s ↔
    (∃ f, (step s).1.latches.ifId = some f ∧ frontEntry (n + 1) (step s).2.board (holding s) f = e) ∨
    (∃ d, (step s).1.latches.idEx = some d ∧ stageEntry (n + 1) "ID" d.instruction = e) ∨
    (∃ x, (step s).1.latches.exMem = some x ∧ stageEntry (n + 1) "EX" x.instruction = e) ∨
    (∃ a, (step s).1.latches.memWb = some a ∧ stageEntry (n + 1) "MEM" a.instruction = e) ∨
    ∃ a, s.1.latches.memWb = some a ∧ stageEntry (n + 1) "WB" a.instruction = e := by
  simp only [recorded, stageEntries, now, List.mem_append, Option.mem_toList, Option.map_eq_some_iff]

theorem cycle_of_mem_recorded {e : Entry} (h : e ∈ recorded s) : e.cycle = s.1.counters.cycles + 1 := by
  obtain ⟨_, -, rfl⟩ | ⟨_, -, rfl⟩ | ⟨_, -, rfl⟩ | ⟨_, -, rfl⟩ | ⟨_, -, rfl⟩ := (mem_recorded rfl).mp h <;> rfl

/-- Some instruction is always on its way. -/
theorem recorded_ne_nil : recorded s ≠ [] := by
  rcases fed_step s with full | full
  · obtain ⟨x, hx⟩ := Option.isSome_iff_exists.mp full
    exact List.ne_nil_of_mem ((mem_recorded rfl).mpr (Or.inr (Or.inr (Or.inl ⟨x, hx, rfl⟩))))
  · obtain ⟨f, hf⟩ := Option.isSome_iff_exists.mp full
    exact List.ne_nil_of_mem ((mem_recorded rfl).mpr (Or.inl ⟨f, hf, rfl⟩))

end Recorded

/-! ## What the trace keeps -/

section Trace

variable {start : Nat} {t : Trace} {log : List Entry}

/-- Records of the latest cycle leave the window where it is. -/
theorem Trace.Keeps.fill (h : Keeps start t log) (narrow : t.history < two64) {es : List Entry}
    (all : ∀ e ∈ es, e.cycle = t.last) : Keeps start (t.replay es) (log ++ es) ∧ (t.replay es).last = t.last := by
  induction es generalizing t log with
  | nil =>
    rw [List.append_nil]
    exact ⟨h, rfl⟩
  | cons e es ih =>
    obtain ⟨now, rest⟩ := List.forall_mem_cons.mp all
    have fits : e.cycle - t.first + 1 < two64 := by
      have history := h.history
      have window := h.first
      omega
    have last : (t.enter e).last = t.last := (h.window_enter (by omega) fits).1.trans now
    have history : (t.enter e).history = t.history := Trace.history_record t _ _ _ _
    have next := ih (h.enter (by omega) fits) (by omega) (by rwa [last])
    rw [List.append_assoc, List.singleton_append, last] at next
    exact next

/-- The records of the next cycle move the window on by one. -/
theorem Trace.Keeps.advance (h : Keeps start t log) (narrow : t.history + 1 < two64) {es : List Entry} (some : es ≠ [])
    (all : ∀ e ∈ es, e.cycle = t.last + 1) :
    Keeps start (t.replay es) (log ++ es) ∧ (t.replay es).last = t.last + 1 := by
  obtain ⟨e, es, rfl⟩ := List.exists_cons_of_ne_nil some
  obtain ⟨now, rest⟩ := List.forall_mem_cons.mp all
  have fits : e.cycle - t.first + 1 < two64 := by
    have history := h.history
    have window := h.first
    omega
  have last : (t.enter e).last = t.last + 1 := (h.window_enter (by omega) fits).1.trans now
  have history : (t.enter e).history = t.history := Trace.history_record t _ _ _ _
  have next := (h.enter (by omega) fits).fill (by omega) (by rwa [last])
  rw [List.append_assoc, List.singleton_append, last] at next
  exact next

/-- The records of the first cycle open the window there. -/
theorem Trace.keeps_first (some : 1 ≤ t.history) (narrow : t.history < two64) {es : List Entry} (filled : es ≠ [])
    {k : Nat} (all : ∀ e ∈ es, e.cycle = k) : Keeps k (t.clear.replay es) es ∧ (t.clear.replay es).last = k := by
  obtain ⟨e, es, rfl⟩ := List.exists_cons_of_ne_nil filled
  obtain ⟨rfl, rest⟩ := List.forall_mem_cons.mp all
  have opens := Trace.keeps_clear_enter some e
  have last : (t.clear.enter e).last = e.cycle := Option.some.inj opens.latest.symm
  have history : (t.clear.enter e).history = t.history := Trace.history_record t.clear _ _ _ _
  have next := opens.fill (by omega) (by rwa [last])
  rw [last] at next
  exact next

theorem mem_labelsIn {pc : Address} {cycle : Nat} {label : String} :
    label ∈ labelsIn log pc cycle ↔ ∃ text, (⟨cycle, pc, text, label⟩ : Entry) ∈ log := by
  simp only [labelsIn, List.mem_map, List.mem_filter, Bool.and_eq_true, beq_iff_eq]
  constructor
  · rintro ⟨⟨_, _, text, _⟩, ⟨mem, rfl, rfl⟩, rfl⟩
    exact ⟨text, mem⟩
  · rintro ⟨text, mem⟩
    exact ⟨_, ⟨mem, rfl, rfl⟩, rfl⟩

/-- No label but an empty one is lost in a cell. -/
theorem Trace.Keeps.shows (h : Keeps start t log) {pc : Address} {cycle : Nat} {label : String}
    (recorded : label ∈ labelsIn log pc cycle) (filled : label ≠ "") : t.Shows pc cycle label := by
  intro inside _
  have kept : label ∈ (labelsIn log pc cycle).dropWhile (·.isEmpty) := by
    rw [← List.takeWhile_append_dropWhile (p := (·.isEmpty)) (l := labelsIn log pc cycle)] at recorded
    refine (List.mem_append.mp recorded).resolve_left fun front => filled ?_
    exact String.isEmpty_iff.mp (List.mem_takeWhile_imp front)
  refine ⟨_, kept, ?_⟩
  rw [h.stageAt, if_pos ⟨inside, List.ne_nil_of_mem recorded⟩]

end Trace

/-! ## The way of an instruction -/

/-- An instruction fetched in cycle `first` has waited `m` cycles in decode, and has then
    passed these stages in consecutive cycles. -/
structure Went (log : List Entry) (p : Address) (first m : Nat) (passed : List String) : Prop where
  fetched : "IF" ∈ labelsIn log p first
  waited : ∀ j, 1 ≤ j → j ≤ m → "st" ∈ labelsIn log p (first + j)
  passed : ∀ i (h : i < passed.length), passed[i] ∈ labelsIn log p (first + m + 1 + i)

/-- So it has by the end of cycle `n`. -/
def Reached (log : List Entry) (n : Nat) (p : Address) (passed : List String) : Prop :=
  ∃ first m, 1 ≤ first ∧ m ≤ 2 ∧ n = first + m + passed.length ∧ Went log p first m passed

section Went

variable {log : List Entry} {p : Address} {first m n : Nat} {passed : List String}

theorem mem_labelsIn_append {cycle : Nat} {label : String} (h : label ∈ labelsIn log p cycle) (es : List Entry) :
    label ∈ labelsIn (log ++ es) p cycle := by
  obtain ⟨text, mem⟩ := mem_labelsIn.mp h
  exact mem_labelsIn.mpr ⟨text, List.mem_append_left es mem⟩

theorem Went.later (h : Went log p first m passed) (es : List Entry) : Went (log ++ es) p first m passed where
  fetched := mem_labelsIn_append h.fetched es
  waited j h1 hm := mem_labelsIn_append (h.waited j h1 hm) es
  passed i hi := mem_labelsIn_append (h.passed i hi) es

theorem Went.fetch (h : "IF" ∈ labelsIn log p first) : Went log p first 0 [] where
  fetched := h
  waited j h1 h0 := absurd h1 (by omega)
  passed i hi := absurd hi (Nat.not_lt_zero i)

theorem Went.wait (h : Went log p first m []) (held : "st" ∈ labelsIn log p (first + m + 1)) :
    Went log p first (m + 1) [] where
  fetched := h.fetched
  waited j h1 hm := by
    rcases Nat.lt_or_ge m j with hj | hj
    · obtain rfl : j = m + 1 := by omega
      exact held
    · exact h.waited j h1 hj
  passed i hi := absurd hi (Nat.not_lt_zero i)

theorem Went.pass (h : Went log p first m passed) {label : String}
    (next : label ∈ labelsIn log p (first + m + passed.length + 1)) : Went log p first m (passed ++ [label]) where
  fetched := h.fetched
  waited := h.waited
  passed i hi := by
    rw [List.length_append, List.length_singleton] at hi
    rcases Nat.lt_or_ge i passed.length with inside | last
    · rw [List.getElem_append_left inside]
      exact h.passed i inside
    · obtain rfl : i = passed.length := by omega
      rw [List.getElem_concat_length rfl]
      rwa [Nat.add_right_comm] at next

theorem Reached.pass (h : Reached log n p passed) {es : List Entry} {text label : String}
    (next : (⟨n + 1, p, text, label⟩ : Entry) ∈ es) : Reached (log ++ es) (n + 1) p (passed ++ [label]) := by
  obtain ⟨first, m, started, short, rfl, went⟩ := h
  have marked := mem_labelsIn.mpr ⟨text, List.mem_append_right log next⟩
  refine ⟨first, m, started, short, ?_, (went.later es).pass marked⟩
  rw [List.length_append, List.length_singleton, Nat.add_assoc]

end Went

/-! ## Everything in flight -/

/-- Whatever is in flight after cycle `n` has come its way. What waits in decode has sent
    nothing into execute meanwhile. -/
structure Diagonal (log : List Entry) (n : Nat) (l : Latches) : Prop where
  fetch : ∀ f ∈ l.ifId, ∃ first m, 1 ≤ first ∧ m ≤ 2 ∧ n = first + m ∧ Went log f.pc first m [] ∧
    (1 ≤ m → l.idEx = none) ∧ (m = 2 → l.exMem = none)
  decode : ∀ d ∈ l.idEx, Reached log n d.instruction.pc ["ID"]
  execute : ∀ e ∈ l.exMem, Reached log n e.instruction.pc ["ID", "EX"]
  memory : ∀ a ∈ l.memWb, Reached log n a.instruction.pc ["ID", "EX", "MEM"]

theorem diagonal_empty : Diagonal [] 0 .empty := by
  constructor <;> rintro _ ⟨⟩

/-- Redirecting fetch only takes instructions away. -/
theorem begin_latches (t : Turn) (s : Pipeline × Machine) : (t.begin s).1.latches = s.1.latches ∨
    (t.begin s).1.latches = { s.1.latches with ifId := none, idEx := none } := by
  obtain ⟨redirect, _, _⟩ := t
  cases redirect with
  | none => exact Or.inl rfl
  | some a => exact Or.inr rfl

theorem Diagonal.begin {log : List Entry} {n : Nat} {s : Pipeline × Machine} (h : Diagonal log n s.1.latches)
    (t : Turn) : Diagonal log n (t.begin s).1.latches := by
  rcases begin_latches t s with e | e
  · rwa [e]
  · rw [e]
    exact ⟨by simp, by simp, h.execute, h.memory⟩

section Step

variable {log : List Entry} {s : Pipeline × Machine} {n : Nat} (h : Diagonal log n s.1.latches)
  (now : s.1.counters.cycles = n)

include h now

theorem Diagonal.fetch_step {f : Fetched} (hf : f ∈ (step s).1.latches.ifId) :
    ∃ first m, 1 ≤ first ∧ m ≤ 2 ∧ n + 1 = first + m ∧ Went (log ++ recorded s) f.pc first m [] ∧
      (1 ≤ m → (step s).1.latches.idEx = none) ∧ (m = 2 → (step s).1.latches.exMem = none) := by
  have label : (if holding s then "st" else "IF") ∈ labelsIn (log ++ recorded s) f.pc (n + 1) :=
    mem_labelsIn.mpr ⟨_, List.mem_append_right log ((mem_recorded now).mpr (Or.inl ⟨f, hf, rfl⟩))⟩
  rcases step_front s with ⟨-, -, none, -⟩ | ⟨hn, hs, idEx, same, -⟩ | ⟨hn, hs, -, new, -⟩
  · rw [none] at hf
    cases hf
  · rw [holding, hs, hn] at label
    rw [same] at hf
    obtain ⟨first, m, started, short, rfl, went, behind, behind'⟩ := h.fetch f hf
    -- a third cycle has nothing left to wait for
    have waits : m ≤ 1 := by
      by_contra two
      rw [stalling_of_clear (behind (by omega)) (behind' (by omega))] at hs
      cases hs
    exact ⟨first, m + 1, started, by omega, by omega, (went.later _).wait label, fun _ => idEx,
      fun two => exMem_of_empty (behind (by omega))⟩
  · rw [holding, hs] at label
    exact ⟨n + 1, 0, by omega, by omega, rfl, .fetch label, fun h0 => absurd h0 (by omega),
      fun h0 => absurd h0 (by omega)⟩

theorem diagonal_step : Diagonal (log ++ recorded s) (n + 1) (step s).1.latches := by
  refine ⟨fun f hf => h.fetch_step now hf, fun d hd => ?_, fun e he => ?_, fun a ha => ?_⟩
  · obtain ⟨f, hf, -, -, rfl⟩ := of_mem_step_idEx hd
    obtain ⟨first, m, started, short, count, went, -⟩ := h.fetch f hf
    have fetched : Reached log n f.pc [] := ⟨first, m, started, short, count, went⟩
    exact fetched.pass ((mem_recorded now).mpr (Or.inr (Or.inl ⟨_, hd, rfl⟩)))
  · obtain ⟨d, hd, rfl⟩ := of_mem_step_exMem he
    exact (h.decode d hd).pass ((mem_recorded now).mpr (Or.inr (Or.inr (Or.inl ⟨_, he, rfl⟩))))
  · obtain ⟨e, he, rfl⟩ := of_mem_step_memWb ha
    exact (h.execute e he).pass ((mem_recorded now).mpr (Or.inr (Or.inr (Or.inr (Or.inl ⟨_, ha, rfl⟩)))))

/-- An instruction that retires has passed every stage. -/
theorem Diagonal.retire {a : Accessed} (ha : a ∈ s.1.latches.memWb) :
    Reached (log ++ recorded s) (n + 1) a.instruction.pc ["ID", "EX", "MEM", "WB"] :=
  (h.memory a ha).pass ((mem_recorded now).mpr (Or.inr (Or.inr (Or.inr (Or.inr ⟨a, ha, rfl⟩)))))

end Step

/-! ## Whole runs -/

section Run

variable (turns : Nat → Turn)

/-- All that has been recorded in a run. -/
def logged (s : Pipeline × Machine) : Nat → List Entry
  | 0 => []
  | k + 1 => logged s k ++ recorded ((turns k).begin (traced turns s k))

theorem logged_prefix (s : Pipeline × Machine) {k n : Nat} (h : k ≤ n) : logged turns s k <+: logged turns s n := by
  induction h with
  | refl => exact List.prefix_rfl
  | step _ ih => exact ih.trans (List.prefix_append _ _)

theorem begin_trace (t : Turn) (s : Pipeline × Machine) : (t.begin s).1.trace = s.1.trace := by
  obtain ⟨redirect, _, _⟩ := t
  cases redirect <;> rfl

theorem begin_counters (t : Turn) (s : Pipeline × Machine) : (t.begin s).1.counters = s.1.counters := by
  obtain ⟨redirect, _, _⟩ := t
  cases redirect <;> rfl

theorem begin_memWb (t : Turn) (s : Pipeline × Machine) : (t.begin s).1.latches.memWb = s.1.latches.memWb := by
  rcases begin_latches t s with e | e <;> rw [e]

variable {s : Pipeline × Machine} (blank : Blank s.1)

include blank

theorem cycles_traced (n : Nat) : (traced turns s n).1.counters.cycles = n := by
  induction n with
  | zero =>
    show s.1.counters.cycles = 0
    rw [blank.counters]
    rfl
  | succ n ih => rw [traced, step_cycles, begin_counters, ih]

theorem diagonal_traced (n : Nat) : Diagonal (logged turns s n) n (traced turns s n).1.latches := by
  induction n with
  | zero =>
    show Diagonal [] 0 s.1.latches
    rw [blank.latches]
    exact diagonal_empty
  | succ n ih =>
    have now : ((turns n).begin (traced turns s n)).1.counters.cycles = n := by
      rw [begin_counters, cycles_traced turns blank]
    exact diagonal_step (ih.begin (turns n)) now

theorem history_traced (n : Nat) : (traced turns s n).1.trace.history = Trace.defaultHistory := by
  induction n with
  | zero =>
    show s.1.trace.history = _
    rw [blank.trace]
    rfl
  | succ n ih => rw [traced, history_step, begin_trace, ih]

theorem keeps_traced (n : Nat) : Keeps 1 (traced turns s (n + 1)).1.trace (logged turns s (n + 1)) ∧
    (traced turns s (n + 1)).1.trace.last = n + 1 := by
  have all (k : Nat) : ∀ e ∈ recorded ((turns k).begin (traced turns s k)), e.cycle = k + 1 := by
    intro e he
    rw [cycle_of_mem_recorded he, begin_counters, cycles_traced turns blank]
  have held (k : Nat) : (traced turns s (k + 1)).1.trace =
      (traced turns s k).1.trace.replay (recorded ((turns k).begin (traced turns s k))) := by
    rw [traced, step_trace rfl, begin_trace]
  have history (k : Nat) : (traced turns s k).1.trace.history = 256 := history_traced turns blank k
  rw [held]
  induction n with
  | zero =>
    have clear : (traced turns s 0).1.trace = (traced turns s 0).1.trace.clear := by
      show s.1.trace = s.1.trace.clear
      rw [blank.trace]
      rfl
    rw [clear]
    exact Trace.keeps_first (by rw [history]; decide) (by rw [history]; decide) recorded_ne_nil (all 0)
  | succ n ih =>
    rw [← held] at ih
    obtain ⟨keeps, last⟩ := ih
    have next := keeps.advance (by rw [history]; decide) recorded_ne_nil (by rw [last]; exact all (n + 1))
    rw [last] at next
    exact next

theorem Reached.shows {n : Nat} {pc : Address} {passed : List String} {k : Nat}
    (reached : Reached (logged turns s k) k pc passed) (later : k ≤ n + 1) (filled : "" ∉ passed) :
    ∃ first m, 1 ≤ first ∧ m ≤ 2 ∧ k = first + m + passed.length ∧
      (traced turns s (n + 1)).1.trace.Shows pc first "IF" ∧
      (∀ j, 1 ≤ j → j ≤ m → (traced turns s (n + 1)).1.trace.Shows pc (first + j) "st") ∧
      ∀ i (h : i < passed.length), (traced turns s (n + 1)).1.trace.Shows pc (first + m + 1 + i) passed[i] := by
  obtain ⟨first, m, started, short, now, went⟩ := reached
  obtain ⟨es, grown⟩ := logged_prefix turns s later
  have went := went.later es
  rw [grown] at went
  have keeps := (keeps_traced turns blank n).1
  exact ⟨first, m, started, short, now, keeps.shows went.fetched (by decide),
    fun j h1 hm => keeps.shows (went.waited j h1 hm) (by decide),
    fun i hi => keeps.shows (went.passed i hi) fun empty => filled (empty ▸ List.getElem_mem hi)⟩

end Run

/-- The row of an instruction that has waited `m` cycles in decode and was in MEM/WB after `c`. -/
structure RetiredRow (t : Trace) (pc : Address) (c m : Nat) : Prop where
  short : m ≤ 2
  started : m + 4 ≤ c
  writeBack : t.Shows pc (c + 1) "WB"
  access : t.Shows pc c "MEM"
  execute : t.Shows pc (c - 1) "EX"
  decode : t.Shows pc (c - 2) "ID"
  waits : ∀ j, 1 ≤ j → j ≤ m → t.Shows pc (c - 2 - j) "st"
  fetch : t.Shows pc (c - 3 - m) "IF"

/-- Whatever an instruction has gone through on its way, the trace shows it from its fetch to
    its write-back, one stage after the other, with the cycles that it waited in between. -/
theorem retired_diagonal {s : Pipeline × Machine} (blank : Blank s.1) (turns : Nat → Turn) {n c : Nat} (past : c < n)
    {a : Accessed} (retires : (traced turns s c).1.latches.memWb = some a) :
    ∃ m, RetiredRow (traced turns s n).1.trace a.instruction.pc c m := by
  obtain ⟨n, rfl⟩ := Nat.exists_eq_add_of_le' past
  have now : ((turns c).begin (traced turns s c)).1.counters.cycles = c := by
    rw [begin_counters, cycles_traced turns blank]
  have reached : Reached (logged turns s (c + 1)) (c + 1) a.instruction.pc ["ID", "EX", "MEM", "WB"] :=
    ((diagonal_traced turns blank c).begin (turns c)).retire now (by rw [begin_memWb]; exact retires)
  obtain ⟨first, m, started, short, count, fetched, waited, passed⟩ := reached.shows turns blank past (by decide)
  obtain rfl : c = first + m + 3 := Nat.succ.inj count
  refine ⟨m, ?_⟩
  constructor
  case short => exact short
  case started => omega
  case writeBack => exact passed 3 (by decide)
  case access => exact passed 2 (by decide)
  case execute => exact passed 1 (by decide)
  case decode => exact passed 0 (by decide)
  case waits =>
    intro j h1 hm
    have cycle : first + m + 3 - 2 - j = first + (m + 1 - j) := by omega
    rw [cycle]
    exact waited _ (by omega) (by omega)
  case fetch =>
    have cycle : first + m + 3 - 3 - m = first := by omega
    rwa [cycle]

/-- Nothing is forwarded, and fetch is sent back to the store before the tenth cycle. -/
def sentBack (k : Nat) : Turn := ⟨if k = 9 then some 8 else none, false, true⟩

/-- The store, fetched in the third cycle, waits in the fourth and the fifth, and retires in
    the ninth. -/
theorem retired_diagonal_storeAndReload :
    let t := (traced sentBack (.fresh, storeAndReload) 12).1.trace
    (∃ a, (traced sentBack (.fresh, storeAndReload) 8).1.latches.memWb = some a ∧ a.instruction.pc = 8) ∧
      t.Shows 8 9 "WB" ∧ t.Shows 8 8 "MEM" ∧ t.Shows 8 7 "EX" ∧ t.Shows 8 6 "ID" ∧
      t.stageAt 8 5 = "st" ∧ t.stageAt 8 4 = "st" ∧ t.stageAt 8 3 = "IF" := by
  intro t
  obtain ⟨a, retires, store⟩ : ∃ a, (traced sentBack (.fresh, storeAndReload) 8).1.latches.memWb = some a ∧
      a.instruction.pc = 8 :=
    Option.map_eq_some_iff.mp (by decide +kernel)
  obtain ⟨_, row⟩ := retired_diagonal blank_fresh sentBack (by decide : 8 < 12) retires
  rw [store] at row
  exact ⟨⟨a, retires, store⟩, row.writeBack, row.access, row.execute, row.decode, by decide +kernel, by decide +kernel,
    by decide +kernel⟩

end Pipeline

end FiveStageArm
