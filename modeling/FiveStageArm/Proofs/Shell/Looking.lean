/-
  FiveStageArm.Proofs.Shell.Looking — lines that leave a session alone: blank lines, unknown
  commands, commands that only show something, and commands that fail. A command fails when
  an argument it needs is missing or none of its kind, when the file to load cannot be read
  or holds nothing, and when there is no program to run (`Idle`).

  What is shown of the machine is peeked at, so nothing is counted and no received byte is
  taken. Arguments are read and files opened before anything is changed.

  Proved:
  - `execute_of_shows`: a command that shows something changes nothing.
  - `shows_of_parse`, `parse_of_misused`, `acts_of_parse`: which words are read as such a
    command, which are refused, and that all others are read as a command that acts.
  - `idle_line_changes_nothing`: an idle line changes nothing and the session goes on; any
    other line is read as a command that acts.
-/

import FiveStageArm.Shell.Session

namespace FiveStageArm.Shell

/-! ## Showing -/

/-- Whether the command only shows something. -/
def Command.shows : Command → Bool
  | .nothing | .help | .registers | .register _ | .flags | .memory .. | .showPc | .showMode | .showHazards
  | .showForwarding | .showTrace | .diagram _ | .breakpoints | .disassemble .. | .showPipeline | .showUart
  | .showGpio | .showMap | .statistics => true
  | _ => false

theorem execute_of_shows {c : Command} (h : c.shows) (s : Session) (files : Files) : (s.execute files c).2 = s := by
  cases c with
  | showPipeline =>
    simp only [Session.execute]
    split <;> rfl
  | _ => first | rfl | cases h

/-! ## Kinds of lines -/

namespace Keyword

/-- The command with these arguments only shows something, or refuses to. -/
def Shows (args : List String) : Keyword → Prop
  | help | registers | flags | memory | disassemble | pipeline | diagram | map | statistics => True
  | register => args.length = 1
  | pc | mode | hazards | forwarding | trace | breakpoint => args = []
  | uart => (∀ word rest, args ≠ "send" :: word :: rest) ∧ ∀ rest, args ≠ "clear" :: rest
  | gpio => ∀ word rest, args = "in" :: word :: rest → parseNumber word = none
  | quit | load | run | step | reset | clear => False

/-- The command would change something, but an argument is missing or none of its kind. -/
def Misused (args : List String) : Keyword → Prop
  | load =>
    match args with
    | [] => True
    | [_] => False
    | _ :: word :: _ => parseNumber word = none
  | run | step | pc | breakpoint =>
    match args with
    | [] => False
    | word :: _ => parseNumber word = none
  | register =>
    match args with
    | [] => True
    | [_] => False
    | name :: word :: _ => parseNumber word = none ∨ parseRegister name = none
  | mode =>
    match args with
    | [] => False
    | word :: _ => parseMode word = none
  | hazards | forwarding | trace =>
    match args with
    | [] => False
    | word :: _ => parseSwitch word = none
  | _ => False

end Keyword

/-- The words of a line that asks to see something, or for what cannot be done. -/
inductive Idle (s : Session) (files : Files) : List String → Prop
  | blank : Idle s files []
  | unknown {word : String} {args : List String} (none : keyword? (lower word) = none) : Idle s files (word :: args)
  | shows {word : String} {args : List String} {k : Keyword} (names : keyword? (lower word) = some k)
      (shows : k.Shows args) : Idle s files (word :: args)
  | misused {word : String} {args : List String} {k : Keyword} (names : keyword? (lower word) = some k)
      (misused : k.Misused args) : Idle s files (word :: args)
  | unloadable {word file : String} {rest : List String} (names : keyword? (lower word) = some .load)
      (unloadable : files file = none ∨ files file = some []) : Idle s files (word :: file :: rest)
  | noProgram {word : String} {args : List String} {k : Keyword} (names : keyword? (lower word) = some k)
      (runs : k = .run ∨ k = .step ∨ k = .reset) (noProgram : s.image = none) : Idle s files (word :: args)

/-! ## Reading a line -/

theorem of_map_ok {α : Type} {x : Except Refusal α} {f : α → Command} {c : Command} (h : x.map f = .ok c) :
    ∃ a, f a = c := by
  cases x with
  | error e => cases h
  | ok a => exact ⟨a, Except.ok.inj h⟩

theorem of_bind_ok {α : Type} {x : Except Refusal α} {f : α → Except Refusal Command} {c : Command}
    (h : x >>= f = .ok c) : ∃ a, f a = .ok c := by
  cases x with
  | error e => cases h
  | ok a => exact ⟨a, h⟩

theorem number_eq_error {word : String} (h : parseNumber word = none) : number word = .error (.invalidNumber word) := by
  unfold number
  rw [h]

theorem number_eq_ok {word : String} (h : parseNumber word ≠ none) : ∃ w, number word = .ok w := by
  obtain ⟨w, hw⟩ := Option.ne_none_iff_exists'.mp h
  exact ⟨w, by rw [number, hw]⟩

theorem register_eq_error {name : String} (h : parseRegister name = none) :
    register name = .error (.unknownRegister name) := by
  unfold register
  rw [h]

theorem register_eq_ok {name : String} (h : parseRegister name ≠ none) : ∃ r, register name = .ok r := by
  obtain ⟨r, hr⟩ := Option.ne_none_iff_exists'.mp h
  exact ⟨r, by rw [register, hr]⟩

/-! ### What only shows -/

theorem shows_of_parseMemory {args : List String} {c : Command} (parsed : parseMemory args = .ok c) : c.shows := by
  cases args with
  | nil => cases parsed
  | cons start rest =>
    obtain ⟨a, parsed⟩ := of_bind_ok parsed
    obtain ⟨count, parsed⟩ := of_bind_ok parsed
    cases parsed
    rfl

theorem shows_of_parseDisassemble {args : List String} {c : Command} (parsed : parseDisassemble args = .ok c) :
    c.shows := by
  cases args with
  | nil =>
    cases parsed
    rfl
  | cons start rest =>
    obtain ⟨a, parsed⟩ := of_bind_ok parsed
    obtain ⟨count, parsed⟩ := of_bind_ok parsed
    cases parsed
    rfl

theorem shows_of_parse {k : Keyword} {args : List String} (h : k.Shows args) {c : Command}
    (parsed : k.parse args = .ok c) : c.shows := by
  cases k with
  | help | registers | flags | pipeline | map | statistics =>
    cases parsed
    rfl
  | quit | load | run | step | reset | clear => cases h
  | pc | mode | hazards | forwarding | trace | breakpoint =>
    obtain rfl : args = [] := h
    cases parsed
    rfl
  | register =>
    obtain ⟨name, rfl⟩ := List.length_eq_one_iff.mp h
    obtain ⟨r, rfl⟩ := of_map_ok parsed
    rfl
  | memory => exact shows_of_parseMemory parsed
  | diagram =>
    obtain ⟨columns, rfl⟩ := of_map_ok parsed
    rfl
  | disassemble => exact shows_of_parseDisassemble parsed
  | uart =>
    cases parsed
    unfold parseUart
    split
    · exact absurd rfl (h.1 _ _)
    · exact absurd rfl (h.2 _)
    · rfl
  | gpio =>
    simp only [Keyword.parse] at parsed
    unfold parseGpio at parsed
    split at parsed
    · rw [number_eq_error (h _ _ rfl)] at parsed
      cases parsed
    · cases parsed
      rfl

/-! ### What is refused -/

theorem parse_of_misused {k : Keyword} {args : List String} (h : k.Misused args) : ∃ e, k.parse args = .error e := by
  cases k with
  | load =>
    match args, h with
    | [], _ => exact ⟨_, rfl⟩
    | file :: word :: rest, h =>
      refine ⟨.invalidNumber word, ?_⟩
      simp only [Keyword.parse, parseLoad, numberOr, number_eq_error h]
      rfl
  | run | step | pc | breakpoint =>
    match args, h with
    | word :: rest, h =>
      refine ⟨.invalidNumber word, ?_⟩
      simp only [Keyword.parse, numberOr, number_eq_error h]
      rfl
  | register =>
    match args, h with
    | [], _ => exact ⟨_, rfl⟩
    | name :: word :: rest, h =>
      by_cases valid : parseNumber word = none
      · refine ⟨.invalidNumber word, ?_⟩
        simp only [Keyword.parse, parseRegisterCommand, number_eq_error valid]
        rfl
      · obtain ⟨w, hw⟩ := number_eq_ok valid
        refine ⟨.unknownRegister name, ?_⟩
        simp only [Keyword.parse, parseRegisterCommand, hw, register_eq_error (h.resolve_left valid)]
        rfl
  | mode =>
    match args, h with
    | word :: rest, h =>
      have unknown : parseMode word = none := h
      exact ⟨.unknownMode, by simp only [Keyword.parse, parseModeCommand, unknown]⟩
  | hazards | forwarding | trace =>
    match args, h with
    | word :: rest, h =>
      have neither : parseSwitch word = none := h
      exact ⟨.notASwitch, by simp only [Keyword.parse, switchOr, neither]⟩
  | _ => cases h

/-! ### What acts -/

theorem acts_of_parse {k : Keyword} {args : List String} (looks : ¬k.Shows args) (proper : ¬k.Misused args) :
    ∃ c, k.parse args = .ok c ∧ c.shows = false := by
  cases k with
  | help | registers | flags | memory | disassemble | pipeline | diagram | map | statistics => exact absurd trivial looks
  | quit | reset | clear => exact ⟨_, rfl, rfl⟩
  | load =>
    match args, proper with
    | [], proper => exact absurd trivial proper
    | [file], _ => exact ⟨.load file 0, rfl, rfl⟩
    | file :: word :: rest, proper =>
      obtain ⟨w, hw⟩ := number_eq_ok proper
      refine ⟨.load file w, ?_, rfl⟩
      simp only [Keyword.parse, parseLoad, numberOr, hw]
      rfl
  | run | step =>
    match args, proper with
    | [], _ => exact ⟨_, rfl, rfl⟩
    | word :: rest, proper =>
      obtain ⟨w, hw⟩ := number_eq_ok proper
      simp only [Keyword.parse, numberOr, hw]
      exact ⟨_, rfl, rfl⟩
  | pc | breakpoint =>
    match args, looks, proper with
    | [], looks, _ => exact absurd rfl looks
    | word :: rest, _, proper =>
      obtain ⟨w, hw⟩ := number_eq_ok proper
      simp only [Keyword.parse, hw]
      exact ⟨_, rfl, rfl⟩
  | register =>
    match args, looks, proper with
    | [], _, proper => exact absurd trivial proper
    | [name], looks, _ => exact absurd rfl looks
    | name :: word :: rest, _, proper =>
      obtain ⟨valid, known⟩ := not_or.mp proper
      obtain ⟨w, hw⟩ := number_eq_ok valid
      obtain ⟨r, hr⟩ := register_eq_ok known
      refine ⟨if r = .pc then .setPc w else .setRegister r w, ?_, ?_⟩
      · simp only [Keyword.parse, parseRegisterCommand, hw, hr]
        rfl
      · split <;> rfl
  | mode =>
    match args, looks, proper with
    | [], looks, _ => exact absurd rfl looks
    | word :: rest, _, proper =>
      obtain ⟨m, hm⟩ := Option.ne_none_iff_exists'.mp proper
      exact ⟨.setMode m, by simp only [Keyword.parse, parseModeCommand, hm], rfl⟩
  | hazards | forwarding | trace =>
    match args, looks, proper with
    | [], looks, _ => exact absurd rfl looks
    | word :: rest, _, proper =>
      obtain ⟨on, hon⟩ := Option.ne_none_iff_exists'.mp proper
      simp only [Keyword.parse, switchOr, hon]
      exact ⟨_, rfl, rfl⟩
  | uart =>
    simp only [Keyword.parse]
    refine ⟨_, rfl, ?_⟩
    unfold parseUart
    split
    · rfl
    · rfl
    · rename_i notSend notClear
      exact absurd ⟨notSend, notClear⟩ looks
  | gpio =>
    simp only [Keyword.Shows, Classical.not_forall] at looks
    obtain ⟨word, rest, rfl, valid⟩ := looks
    obtain ⟨w, hw⟩ := number_eq_ok valid
    refine ⟨.drivePins w, ?_, rfl⟩
    simp only [Keyword.parse, parseGpio, hw]
    rfl

/-! ## Idle lines -/

theorem respond_of_error {line : String} {e : Refusal} (h : Command.parse line = .error e) (s : Session) (files : Files) :
    (s.respond files line).session = s ∧ (s.respond files line).continues := by
  unfold Session.respond
  rw [h]
  exact ⟨rfl, rfl⟩

theorem respond_of_ok {line : String} {c : Command} (h : Command.parse line = .ok c) (goes : c ≠ .quit) {s : Session}
    {files : Files} (same : (s.execute files c).2 = s) :
    (s.respond files line).session = s ∧ (s.respond files line).continues := by
  unfold Session.respond
  rw [h]
  exact ⟨same, decide_eq_true goes⟩

theorem parse_of_keyword {line word : String} {args : List String} (split : words line = word :: args) {k : Keyword}
    (names : keyword? (lower word) = some k) : Command.parse line = k.parse args := by
  simp only [Command.parse, split, names]

section

variable {s : Session} {files : Files} {line : String}

theorem respond_of_idle (h : Idle s files (words line)) :
    (s.respond files line).session = s ∧ (s.respond files line).continues := by
  generalize split : words line = ws at h
  cases h with
  | blank =>
    have parsed : Command.parse line = .ok .nothing := by simp only [Command.parse, split]
    exact respond_of_ok parsed (by decide) rfl
  | @unknown word args none =>
    have parsed : Command.parse line = .error (.unknownCommand (lower word)) := by simp only [Command.parse, split, none]
    exact respond_of_error parsed s files
  | @shows word args k names shows =>
    have parse := parse_of_keyword split names
    cases parsed : k.parse args with
    | error e => exact respond_of_error (parse.trans parsed) s files
    | ok c =>
      have looks := shows_of_parse shows parsed
      have goes : c ≠ .quit := by
        rintro rfl
        cases looks
      exact respond_of_ok (parse.trans parsed) goes (execute_of_shows looks s files)
  | misused names misused =>
    obtain ⟨e, refused⟩ := parse_of_misused misused
    exact respond_of_error ((parse_of_keyword split names).trans refused) s files
  | @unloadable word file rest names unloadable =>
    have parse := parse_of_keyword split names
    cases parsed : numberOr 0 rest with
    | error e =>
      have refused : Keyword.load.parse (file :: rest) = .error e := by
        simp only [Keyword.parse, parseLoad, parsed]
        rfl
      exact respond_of_error (parse.trans refused) s files
    | ok origin =>
      have accepted : Keyword.load.parse (file :: rest) = .ok (.load file origin) := by
        simp only [Keyword.parse, parseLoad, parsed]
        rfl
      refine respond_of_ok (parse.trans accepted) (by simp) ?_
      rcases unloadable with none | empty
      · simp only [Session.execute, Session.load, none]
      · simp only [Session.execute, Session.load, empty]
  | @noProgram word args k names runs noProgram =>
    have parse := parse_of_keyword split names
    have nothing (f : Image → String × Session) : (s.withImage f).2 = s := by
      unfold Session.withImage
      rw [noProgram]
    cases parsed : k.parse args with
    | error e => exact respond_of_error (parse.trans parsed) s files
    | ok c =>
      rcases runs with rfl | rfl | rfl
      · obtain ⟨limit, rfl⟩ := of_map_ok parsed
        exact respond_of_ok (parse.trans parsed) (by simp) (nothing _)
      · obtain ⟨count, rfl⟩ := of_map_ok parsed
        exact respond_of_ok (parse.trans parsed) (by simp) (nothing _)
      · cases parsed
        exact respond_of_ok parse (by simp) (nothing _)

theorem acts_of_not_idle (h : ¬Idle s files (words line)) : ∃ c, Command.parse line = .ok c ∧ c.shows = false := by
  cases split : words line with
  | nil => exact absurd (split ▸ .blank) h
  | cons word args =>
    rw [split] at h
    cases names : keyword? (lower word) with
    | none => exact absurd (.unknown names) h
    | some k =>
      rw [parse_of_keyword split names]
      exact acts_of_parse (fun shows => h (.shows names shows)) fun misused => h (.misused names misused)

end

/-- A line that only shows something, or that is no command, leaves the whole session as it is,
    and any other is a command that does something. -/
theorem idle_line_changes_nothing (s : Session) (files : Files) (line : String) :
    (Idle s files (words line) → (s.respond files line).session = s ∧ (s.respond files line).continues) ∧
      (¬Idle s files (words line) → ∃ c, Command.parse line = .ok c ∧ c.shows = false) :=
  ⟨respond_of_idle, acts_of_not_idle⟩

/-- A program under way, with a breakpoint set and bytes waiting in the UART. -/
def underWay : Session :=
  ["break 0x40", "uart send go", "step 3"].foldl (fun s line => (s.respond (fun _ => none) line).session)
    (Session.fresh.loadWords [0xE3A01005, 0xEAFFFFFE] 0).2

/-- Dumping the UART's registers, where a load would take a byte, and driving the pins with a
    number of 33 bits. -/
theorem idle_line_changes_nothing_underWay :
    (underWay.board.uart.received = [103, 111, 10] ∧ underWay.pipeline.counters.cycles = 3) ∧
      Idle underWay (fun _ => none) (words "MEM 0xFFFF0000 16") ∧
      Idle underWay (fun _ => none) (words "gpio in 0x100000000") ∧
      (underWay.respond (fun _ => none) "MEM 0xFFFF0000 16").session = underWay ∧
      (underWay.respond (fun _ => none) "gpio in 0x100000000").session = underWay := by
  have dump : Idle underWay (fun _ => none) (words "MEM 0xFFFF0000 16") := by
    have split : words "MEM 0xFFFF0000 16" = ["MEM", "0xFFFF0000", "16"] := by decide +kernel
    rw [split]
    exact .shows (k := .memory) (by decide +kernel) trivial
  have drive : Idle underWay (fun _ => none) (words "gpio in 0x100000000") := by
    have split : words "gpio in 0x100000000" = ["gpio", "in", "0x100000000"] := by decide +kernel
    rw [split]
    refine .shows (k := .gpio) (by decide +kernel) ?_
    rintro word rest ⟨⟩
    decide +kernel
  exact ⟨by decide +kernel, dump, drive, ((idle_line_changes_nothing _ _ _).1 dump).1,
    ((idle_line_changes_nothing _ _ _).1 drive).1⟩

end FiveStageArm.Shell
