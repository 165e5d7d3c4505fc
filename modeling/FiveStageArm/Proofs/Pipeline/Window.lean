/-
  FiveStageArm.Proofs.Pipeline.Window — what a trace keeps of the records made in it. They
  come in the order of their cycles, several of them perhaps in one cycle, and a later cycle
  may lie any distance ahead. The window begins with the first of them and then moves with
  the latest cycle, never wider than the history.

  A log is the list of all records made (`Entry`, `replay`). The trace has every label of the
  log inside the window and none outside (`Keeps.labelsAt`).

  Proved: a record in order keeps that so (`Keeps.enter`), hence a log replayed does
  (`Keeps.replay`), and where the window lies (`recent_window_kept`). The labels of a cell
  are shown joined, except that empty ones at the front are not marked off (`join_eq`,
  `empty_label_unmarked`).
-/

import FiveStageArm.Pipeline.Trace

namespace FiveStageArm.Pipeline.Trace

/-! ## The history -/

theorem history_prune (t : Trace) : t.prune.history = t.history := by
  unfold prune
  split <;> rfl

theorem history_record (t : Trace) (cycle : Nat) (pc : Address) (text stage : String) :
    (t.record cycle pc text stage).history = t.history := by
  unfold record
  simp only []
  split
  · rw [history_prune]
  · rfl

/-! ## Records -/

/-- What is recorded in one call. -/
structure Entry where
  cycle : Nat
  pc : Address
  text : String
  stage : String
  deriving DecidableEq

def enter (t : Trace) (e : Entry) : Trace := t.record e.cycle e.pc e.text e.stage

/-- The trace after the records, the first of them made first. -/
def replay (t : Trace) (log : List Entry) : Trace := log.foldl enter t

/-- The labels recorded for a cell, the first of them first. -/
def labelsIn (log : List Entry) (pc : Address) (cycle : Nat) : List String :=
  (log.filter fun e => e.pc == pc && e.cycle == cycle).map (·.stage)

theorem history_replay (t : Trace) (log : List Entry) : (t.replay log).history = t.history := by
  induction log generalizing t with
  | nil => rfl
  | cons e log ih => exact (ih (t.enter e)).trans (history_record t _ _ _ _)

/-! ## Columns -/

/-- What columns hold for a cycle, newest first. -/
def marksIn (cs : List Column) (cycle : Nat) : List Mark := ((cs.find? (·.cycle == cycle)).map (·.marks)).getD []

theorem marksIn_cons (c : Column) (cs : List Column) (cycle : Nat) :
    marksIn (c :: cs) cycle = if c.cycle = cycle then c.marks else marksIn cs cycle := by
  by_cases h : c.cycle = cycle
  · simp [marksIn, h]
  · simp [marksIn, h]

theorem marksIn_addMark {cs : List Column} {cycle : Nat} (present : cs.any (·.cycle == cycle)) (m : Mark) (k : Nat) :
    marksIn (addMark cycle m cs) k = if k = cycle then m :: marksIn cs k else marksIn cs k := by
  induction cs with
  | nil => cases present
  | cons c cs ih =>
    rw [addMark]
    by_cases h : c.cycle = cycle
    · rw [if_pos h, marksIn_cons, marksIn_cons]
      grind
    · rw [if_neg h, marksIn_cons, marksIn_cons]
      have rest : cs.any (·.cycle == cycle) := by simpa [h] using present
      rw [ih rest]
      grind

theorem marksIn_insertMark (cs : List Column) (cycle : Nat) (m : Mark) (k : Nat) :
    marksIn (insertMark cycle m cs) k = if k = cycle then m :: marksIn cs k else marksIn cs k := by
  unfold insertMark
  by_cases present : cs.any (·.cycle == cycle)
  · rw [if_pos present, marksIn_addMark present]
  · rw [if_neg present, marksIn_cons]
    have none : marksIn cs cycle = [] := by
      rw [marksIn, List.find?_eq_none.mpr fun c hc h => present (List.any_eq_true.mpr ⟨c, hc, h⟩)]
      rfl
    grind

theorem marksIn_filter (cs : List Column) (cutoff k : Nat) :
    marksIn (cs.filter (cutoff ≤ ·.cycle)) k = if cutoff ≤ k then marksIn cs k else [] := by
  induction cs with
  | nil => simp [marksIn]
  | cons c cs ih =>
    rw [List.filter_cons, marksIn_cons]
    split
    · rw [marksIn_cons, ih]
      grind
    · rw [ih]
      grind

theorem isEmpty_of_marksAt {t : Trace} {k : Nat} (h : t.marksAt k ≠ []) : t.isEmpty = false := by
  unfold isEmpty
  cases hc : t.columns with
  | nil => simp [marksAt, hc] at h
  | cons c cs => rfl

/-! ## The log -/

def Entry.mark (e : Entry) : Mark := ⟨e.pc, e.stage⟩

/-- What a log holds for a cycle, newest first. -/
def marksFrom (log : List Entry) (cycle : Nat) : List Mark := ((log.filter (·.cycle == cycle)).map Entry.mark).reverse

theorem marksFrom_concat (log : List Entry) (e : Entry) (k : Nat) :
    marksFrom (log ++ [e]) k = if k = e.cycle then e.mark :: marksFrom log k else marksFrom log k := by
  by_cases h : k = e.cycle
  · simp [marksFrom, h]
  · simp [marksFrom, h, Ne.symm h]

/-- The trace holds what the log does, as far as it is in a window that ends with the latest
    cycle and begins no earlier than `start`, where the log does. -/
structure Keeps (start : Nat) (t : Trace) (log : List Entry) : Prop where
  history : 1 ≤ t.history
  begun : t.isEmpty = false
  latest : ((log.map (·.cycle)).max? = some t.last)
  after : start ≤ t.last
  first : t.first = max start (t.last + 1 - t.history)
  marks : ∀ k, t.marksAt k = if t.first ≤ k then marksFrom log k else []

theorem Keeps.labelsAt {start : Nat} {t : Trace} {log : List Entry} (h : Keeps start t log) (pc : Address) (k : Nat) :
    t.labelsAt pc k = if t.first ≤ k then labelsIn log pc k else [] := by
  rw [Trace.labelsAt, h.marks]
  split
  · rw [marksFrom, List.filter_reverse, List.reverse_reverse, List.filter_map, List.filter_filter, List.map_map]
    rfl
  · rfl

/-! ## One record -/

/-- The trace with the record in it and nothing dropped yet. -/
def noted (t : Trace) (e : Entry) : Trace :=
  { t with
    columns := insertMark e.cycle e.mark t.columns
    texts := t.texts.insert e.pc e.text
    first := if t.isEmpty || e.cycle < t.first then e.cycle else t.first
    last := if t.isEmpty || t.last < e.cycle then e.cycle else t.last }

theorem enter_eq (t : Trace) (e : Entry) :
    t.enter e = if t.isEmpty || t.last < e.cycle then (t.noted e).prune else t.noted e := rfl

theorem marksAt_noted (t : Trace) (e : Entry) (k : Nat) :
    (t.noted e).marksAt k = if k = e.cycle then e.mark :: t.marksAt k else t.marksAt k :=
  marksIn_insertMark t.columns e.cycle e.mark k

theorem prune_of_le {t : Trace} (h : t.width ≤ t.history) : t.prune = t := if_pos h

theorem marksAt_prune {t : Trace} (h : ¬t.width ≤ t.history) (k : Nat) :
    t.prune.marksAt k = if t.last - t.history + 1 ≤ k then t.marksAt k else [] := by
  rw [prune, if_neg h]
  exact marksIn_filter t.columns (t.last - t.history + 1) k

theorem keeps_clear_enter {t : Trace} (history : 1 ≤ t.history) (e : Entry) : Keeps e.cycle (t.clear.enter e) [e] := by
  have alone : t.clear.enter e = t.clear.noted e := by
    have width : (t.clear.noted e).width = 1 := by
      simp [width, noted, isEmpty, clear, two64]
    rw [enter_eq]
    exact (if_pos rfl).trans (prune_of_le (by rw [width]; exact history))
  have first : (t.clear.noted e).first = e.cycle := rfl
  have last : (t.clear.noted e).last = e.cycle := rfl
  have marks (k : Nat) : (t.clear.noted e).marksAt k = if k = e.cycle then [e.mark] else [] := marksAt_noted t.clear e k
  rw [alone]
  refine ⟨history, isEmpty_of_marksAt (k := e.cycle) (by simp [marks]), by rw [last]; rfl, Nat.le_refl _, ?_,
    fun k => ?_⟩
  · rw [first, last]
    show e.cycle = max e.cycle (e.cycle + 1 - t.history)
    omega
  · rw [marks, first, ← List.nil_append [e], marksFrom_concat]
    grind [marksFrom]

section

variable {start : Nat} {t : Trace} {log : List Entry} (h : Keeps start t log) {e : Entry} (inOrder : t.last ≤ e.cycle)
  (fits : e.cycle - t.first + 1 < two64)

include h inOrder fits

/-- The window moves on to the record's cycle, and the record is put into it. -/
theorem Keeps.window_enter : (t.enter e).last = e.cycle ∧
    (t.enter e).first = max t.first (e.cycle + 1 - t.history) ∧
    ∀ k, (t.enter e).marksAt k =
      if (t.enter e).first ≤ k then (if k = e.cycle then e.mark :: t.marksAt k else t.marksAt k) else [] := by
  have history := h.history
  have after := h.after
  have window := h.first
  have begins : (t.noted e).first = t.first := by
    simp only [noted, h.begun, Bool.false_or, decide_eq_true_eq]
    exact if_neg (by omega)
  -- nothing is kept from before the window, so dropping it is all the same
  have below (k : Nat) (hk : ¬t.first ≤ k) : t.marksAt k = [] ∧ k ≠ e.cycle := by
    rw [h.marks, if_neg hk]
    exact ⟨rfl, by omega⟩
  rw [enter_eq]
  simp only [h.begun, Bool.false_or, decide_eq_true_eq]
  by_cases advanced : t.last < e.cycle
  · have ends : (t.noted e).last = e.cycle := by simp [noted, advanced]
    have width : (t.noted e).width = e.cycle - t.first + 1 := by
      rw [Trace.width, begins, ends, Nat.mod_eq_of_lt fits]
    rw [if_pos advanced]
    have same : (t.noted e).history = t.history := rfl
    by_cases wide : (t.noted e).width ≤ (t.noted e).history
    · rw [prune_of_le wide, begins, ends]
      refine ⟨rfl, by omega, fun k => ?_⟩
      rw [marksAt_noted]
      grind
    · have first : (t.noted e).prune.first = e.cycle - t.history + 1 := by
        rw [prune, if_neg wide]
        show (t.noted e).last - t.history + 1 = _
        rw [ends]
      have last : (t.noted e).prune.last = e.cycle := by
        rw [prune, if_neg wide]
        exact ends
      rw [first, last]
      refine ⟨rfl, by omega, fun k => ?_⟩
      rw [marksAt_prune wide, marksAt_noted, ends, same]
  · have ends : (t.noted e).last = e.cycle := by
      simp only [noted, h.begun, advanced, Bool.false_or, decide_false, Bool.false_eq_true, if_false]
      omega
    rw [if_neg advanced, begins, ends]
    refine ⟨rfl, by omega, fun k => ?_⟩
    rw [marksAt_noted]
    grind

theorem Keeps.enter : Keeps start (t.enter e) (log ++ [e]) := by
  obtain ⟨last, first, marks⟩ := h.window_enter inOrder fits
  have history : (t.enter e).history = t.history := history_record _ _ _ _ _
  have held := h.history
  have after := h.after
  have window := h.first
  have kept (k : Nat) : (t.enter e).marksAt k = if (t.enter e).first ≤ k then marksFrom (log ++ [e]) k else [] := by
    rw [marks, marksFrom_concat, h.marks]
    grind
  refine ⟨by omega, isEmpty_of_marksAt (k := e.cycle) ?_, ?_, by omega, by omega, kept⟩
  · rw [kept, if_pos (by omega), marksFrom_concat, if_pos rfl]
    exact List.cons_ne_nil _ _
  · obtain ⟨-, latest⟩ := List.max?_eq_some_iff.mp h.latest
    rw [List.max?_eq_some_iff, last, List.map_append]
    refine ⟨List.mem_append_right _ (List.mem_singleton_self _), fun k hk => ?_⟩
    rcases List.mem_append.mp hk with hk | hk
    · exact Nat.le_trans (latest k hk) inOrder
    · exact Nat.le_of_eq (List.mem_singleton.mp hk)

end

/-! ## Many records -/

theorem Keeps.replay {start : Nat} {t : Trace} {log : List Entry} (h : Keeps start t log) {rest : List Entry}
    (ordered : (t.last :: rest.map (·.cycle)).Pairwise (· ≤ ·)) (bounded : ∀ e ∈ rest, e.cycle < two64 - 1) :
    Keeps start (t.replay rest) (log ++ rest) := by
  induction rest generalizing t log with
  | nil =>
    rw [List.append_nil]
    exact h
  | cons e rest ih =>
    rw [List.map_cons, List.pairwise_cons] at ordered
    have below := bounded e List.mem_cons_self
    have inOrder : t.last ≤ e.cycle := ordered.1 _ List.mem_cons_self
    have fits : e.cycle - t.first + 1 < two64 := by omega
    have next := h.enter inOrder fits
    rw [List.append_cons]
    refine ih next ?_ fun x hx => bounded x (List.mem_cons_of_mem e hx)
    rw [(h.window_enter inOrder fits).1]
    exact ordered.2

/-! ## Cells -/

theorem intercalate_append (s a b : String) (l : List String) :
    s.intercalate ((a ++ b) :: l) = a ++ s.intercalate (b :: l) := by
  cases l with
  | nil => rw [String.intercalate_singleton, String.intercalate_singleton]
  | cons c l => simp only [String.intercalate_cons_cons, String.append_assoc]

theorem join_eq (labels : List String) : join labels = "/".intercalate (labels.dropWhile (·.isEmpty)) := by
  have begun (labels : List String) {out : String} (h : out.isEmpty = false) :
      labels.foldl (fun out label => if out.isEmpty then label else out ++ "/" ++ label) out =
        "/".intercalate (out :: labels) := by
    induction labels generalizing out with
    | nil => exact String.intercalate_singleton.symm
    | cons l ls ih =>
      have longer : (out ++ "/" ++ l).isEmpty = false := by simp
      rw [List.foldl_cons, h, if_neg Bool.false_ne_true, ih longer, intercalate_append, String.intercalate_cons_cons]
  unfold join
  induction labels with
  | nil => rfl
  | cons l ls ih =>
    have start : "".isEmpty = true := rfl
    rw [List.foldl_cons, if_pos start]
    cases h : l.isEmpty with
    | true =>
      rw [List.dropWhile_cons_of_pos h, String.isEmpty_iff.mp h]
      exact ih
    | false =>
      rw [List.dropWhile_cons_of_neg (by simp [h])]
      exact begun ls h

/-- What a cell shows when the trace holds what the log does. -/
theorem Keeps.stageAt {start : Nat} {t : Trace} {log : List Entry} (h : Keeps start t log) (pc : Address) (k : Nat) :
    t.stageAt pc k =
      if t.first ≤ k ∧ labelsIn log pc k ≠ [] then "/".intercalate ((labelsIn log pc k).dropWhile (·.isEmpty))
      else "-" := by
  rw [Trace.stageAt, h.labelsAt, cellText, join_eq]
  by_cases inside : t.first ≤ k
  · simp [inside]
  · simp [inside]

/-- What a trace of `h` cycles shows of a log that starts at `start` and has come to `c`. A cell
    leaves out the empty labels it begins with, so one that begins with another shows its
    labels joined. -/
structure Window (h start c : Nat) (log : List Entry) (u : Trace) : Prop where
  last : u.last = c
  first : u.first = max start (c + 1 - max h 1)
  begun : u.isEmpty = false
  shown : ∀ pc k, u.stageAt pc k =
    if u.first ≤ k ∧ labelsIn log pc k ≠ [] then "/".intercalate ((labelsIn log pc k).dropWhile (·.isEmpty)) else "-"
  joined : ∀ pc k, (labelsIn log pc k).head? ≠ some "" → u.stageAt pc k =
    if u.first ≤ k ∧ labelsIn log pc k ≠ [] then "/".intercalate (labelsIn log pc k) else "-"

/-- A trace in which cycles come in order shows the most recent ones, as many as its history
    has, and of each cell in them everything recorded there. -/
theorem recent_window_kept {t : Trace} {h : Nat} (history : t.history = max h 1) {e : Entry} {log : List Entry}
    (ordered : ((e :: log).map (·.cycle)).Pairwise (· ≤ ·)) (bounded : ∀ x ∈ e :: log, x.cycle < two64 - 1) {c : Nat}
    (latest : ((e :: log).map (·.cycle)).max? = some c) :
    Window h e.cycle c (e :: log) (t.clear.replay (e :: log)) := by
  have keeps : Keeps e.cycle (t.clear.replay (e :: log)) (e :: log) := by
    have first := keeps_clear_enter (t := t) (by omega) e
    refine first.replay ?_ fun x hx => bounded x (List.mem_cons_of_mem e hx)
    have begins : (t.clear.enter e).last = e.cycle := Option.some.inj first.latest.symm
    rwa [begins]
  have last : (t.clear.replay (e :: log)).last = c := by
    have held := keeps.latest
    rw [latest] at held
    exact (Option.some.inj held).symm
  constructor
  case last => exact last
  case first =>
    rw [keeps.first, last, history_replay]
    exact congrArg (fun h => max e.cycle (c + 1 - h)) history
  case begun => exact keeps.begun
  case shown => exact keeps.stageAt
  case joined =>
    intro pc k plain
    have whole : (labelsIn (e :: log) pc k).dropWhile (·.isEmpty) = labelsIn (e :: log) pc k := by
      cases hl : labelsIn (e :: log) pc k with
      | nil => rfl
      | cons l ls =>
        refine List.dropWhile_cons_of_neg fun empty => plain ?_
        rw [hl, String.isEmpty_iff.mp empty]
        rfl
    rw [keeps.stageAt, whole]

/-- A window of one cycle, four cycles behind which a record is dropped. -/
theorem recent_window_kept_behind :
    let log : List Entry := [⟨1, 16, "NOP", "ID"⟩, ⟨5, 16, "NOP", ""⟩, ⟨5, 16, "NOP", "WB"⟩]
    (log.map (·.cycle)).Pairwise (· ≤ ·) ∧ (∀ x ∈ log, x.cycle < two64 - 1) ∧ (log.map (·.cycle)).max? = some 5 ∧
    ((ofHistory 0).clear.replay log).first = 5 ∧ ((ofHistory 0).clear.replay log).stageAt 16 1 = "-" := by
  intro log
  have ordered : (log.map (·.cycle)).Pairwise (· ≤ ·) := by decide
  have bounded : ∀ x ∈ log, x.cycle < two64 - 1 := by decide
  have latest : (log.map (·.cycle)).max? = some 5 := by decide
  have window := recent_window_kept (t := ofHistory 0) (h := 0) rfl ordered bounded latest
  exact ⟨ordered, bounded, latest, window.first, (window.shown 16 1).trans (by rw [window.first]; rfl)⟩

/-- With an empty label before it, `IF` is shown as if it were alone. -/
theorem empty_label_unmarked : ¬∀ (t : Trace) (h : Nat) (e : Entry) (log : List Entry), t.history = max h 1 →
    ((e :: log).map (·.cycle)).Pairwise (· ≤ ·) → (∀ x ∈ e :: log, x.cycle < two64 - 1) →
    let u := t.clear.replay (e :: log)
    ∀ pc k, u.stageAt pc k =
      if u.first ≤ k ∧ labelsIn (e :: log) pc k ≠ [] then "/".intercalate (labelsIn (e :: log) pc k) else "-" := by
  intro joined
  have shown := joined (ofHistory 256) 256 ⟨1, 16, "NOP", ""⟩ [⟨1, 16, "NOP", "IF"⟩] rfl (by decide) (by decide) 16 1
  revert shown
  decide +kernel

end FiveStageArm.Pipeline.Trace
