/-
  FiveStageArm.Proofs.Shell.MemoryDump — what `mem` prints, read back from the text. A dump is
  written piece by piece on a stream whose format changes on the way, and comes to a header and
  a line for each row (`dump_eq`). A row is read by its punctuation, a colon and two bars. The
  first bar is where the characters begin, since no cell has one; they may have more of them.

  Proved:
  - A row is read as it was meant, however many bytes it has (`read_rowText`).
  - Rows of sixteen, one after the other, are the bytes one after the other
    (`flatMap_sixteens`).
  - So the rows of a dump hold what a peek sees at each address in turn, past the highest one to
    0, whatever the format of the stream was, and leave it in decimal with blanks for filling
    (`dump_faithful`).
-/

import FiveStageArm.Proofs.Bus.Placement
import FiveStageArm.Proofs.Shell.Stepping
import FiveStageArm.Proofs.Text.Lines
import FiveStageArm.Proofs.Text.Numeral

namespace FiveStageArm

/-! ## Streams -/

namespace Text

theorem padLeft_hexDigits_two {v : Nat} (byte : v < 256) :
    padLeft 2 '0' (hexDigits 0 v) = String.ofList [Nat.digitChar (v / 16), Nat.digitChar (v % 16)] := by
  have unpadded : (hexDigits 0 v).toList = Nat.toDigits 16 v := by
    rw [hexDigits, toList_padLeft, Nat.zero_sub, String.toList_ofList]
    rfl
  rw [padLeft, unpadded, Nat.toDigits_eq_if (by decide)]
  split
  · rename_i small
    rw [Nat.div_eq_of_lt small, Nat.mod_eq_of_lt small]
    rfl
  · rw [Nat.toDigits_of_lt_base (by omega)]
    rfl

theorem join_singletons {α : Type} (f : α → Char) (l : List α) :
    String.join (l.map fun x => String.singleton (f x)) = String.ofList (l.map f) := by
  induction l with
  | nil => rfl
  | cons x l ih =>
    rw [List.map_cons, String.join_cons, ih, List.map_cons, ← String.toList_inj]
    simp

namespace Stream

variable (s : Stream)

theorem written_put (t : String) : (s.put t).written = s.written ++ t := rfl

/-- A loop writes what its rounds write. -/
theorem written_foldl {α : Type} {f : Stream → α → Stream} {text : α → String}
    (round : ∀ s x, (f s x).written = s.written ++ text x) (l : List α) :
    (l.foldl f s).written = s.written ++ String.join (l.map text) := by
  induction l generalizing s with
  | nil => exact (String.append_empty).symm
  | cons x l ih => rw [List.foldl_cons, ih, round, List.map_cons, String.join_cons, String.append_assoc]

end Stream

end Text

/-! ## What is written -/

namespace Bus

open Text (Stream)

variable {n : Nat} (b : Bus n)

/-- Two dots, or the two hexadecimal digits of the byte a peek sees. -/
def cellText (a : Address) : String :=
  let v := (b.peekByte a).toNat
  if (b.find? a).isNone then ".." else String.ofList [Nat.digitChar (v / 16), Nat.digitChar (v % 16)]

def cellsText (row : Address) (count : Nat) : String :=
  String.join ((List.range count).map fun j => b.cellText (row + UInt32.ofNat j) ++ if j = 7 then "  " else " ")

/-- A row up to the end of its line. -/
def rowText (row : Address) (count : Nat) : String :=
  Text.hex row ++ ": " ++ b.cellsText row count ++ " |"
    ++ String.ofList ((List.range count).map fun j => b.charCell (row + UInt32.ofNat j)) ++ "|"

theorem written_putCell (s : Stream) (a : Address) :
    (b.putCell s a).written = s.written ++ (b.cellText a ++ " ") := by
  unfold putCell cellText
  cases b.find? a with
  | none => rfl
  | some r =>
    have digits := Text.padLeft_hexDigits_two (v := (b.peekByte a).toNat) (b.peekByte a).toNat_lt
    show s.written ++ Text.padLeft 2 '0' (Text.hexDigits 0 (b.peekByte a).toNat) ++ " " = _
    rw [digits, String.append_assoc]
    rfl

theorem written_putRow (s : Stream) (row : Address) (count : Nat) :
    (b.putRow s row count).written = s.written ++ Text.line (b.rowText row count) := by
  have cell (s : Stream) (j : Nat) :
      (if j = 7 then (b.putCell s (row + UInt32.ofNat j)).put " " else b.putCell s (row + UInt32.ofNat j)).written =
        s.written ++ (b.cellText (row + UInt32.ofNat j) ++ if j = 7 then "  " else " ") := by
    split
    · rw [Stream.written_put, written_putCell, String.append_assoc, String.append_assoc]
      rfl
    · exact b.written_putCell s _
  have character (s : Stream) (j : Nat) : (s.put (String.singleton (b.charCell (row + UInt32.ofNat j)))).written =
      s.written ++ String.singleton (b.charCell (row + UInt32.ofNat j)) := rfl
  unfold putRow rowText cellsText
  simp only [Stream.written_put, Stream.written_foldl _ cell, Stream.written_foldl _ character, Text.join_singletons]
  simp only [Text.line, String.append_assoc]
  rfl

/-- The rows after the first `done` bytes. -/
def rowTexts (start : Address) (done count : Nat) : List String :=
  (List.range ((count - done + 15) / 16)).map fun k =>
    b.rowText (start + UInt32.ofNat (done + 16 * k)) (min 16 (count - (done + 16 * k)))

theorem rowTexts_of_lt (start : Address) {done count : Nat} (more : done < count) :
    b.rowTexts start done count =
      b.rowText (start + UInt32.ofNat done) (min 16 (count - done)) :: b.rowTexts start (done + 16) count := by
  have rows : (count - done + 15) / 16 = (count - (done + 16) + 15) / 16 + 1 := by omega
  have next (k : Nat) : done + 16 * (k + 1) = done + 16 + 16 * k := by omega
  unfold rowTexts
  rw [rows, List.range_succ_eq_map, List.map_cons, List.map_map]
  simp only [Function.comp_def, Nat.succ_eq_add_one, next]
  rfl

theorem written_putRows (s : Stream) (start : Address) (done count : Nat) :
    (b.putRows s start done count).written =
      s.written ++ String.join ((b.rowTexts start done count).map Text.line) := by
  fun_induction b.putRows s start done count with
  | case1 s done more ih =>
    rw [ih, written_putRow, rowTexts_of_lt b start more, List.map_cons, String.join_cons, String.append_assoc]
  | case2 s done past =>
    have none : count - done = 0 := by omega
    rw [rowTexts, none]
    exact String.append_empty.symm

end Bus

/-! ## Reading a row -/

namespace Shell

/-- A row as a reader finds it: what stands before the first colon, the words from there to
    the first bar, and what stands between that bar and the end's. -/
structure DumpRow where
  label : String
  cells : List String
  characters : List Char
  deriving DecidableEq

def DumpRow.read (line : String) : DumpRow :=
  let rest := line.toList.dropWhile (· ≠ ':')
  ⟨String.ofList (line.toList.takeWhile (· ≠ ':')), words (String.ofList (rest.tail.takeWhile (· ≠ '|'))),
    (rest.dropWhile (· ≠ '|')).tail.dropLast⟩

/-- The rows below the header. -/
def dumpRows (printed : String) : List DumpRow := (Text.lines printed).tail.map DumpRow.read

section Split

variable {c : Char} {cs : List Char} (h : c ∉ cs) (rest : List Char)

include h

theorem takeWhile_ne : (cs ++ c :: rest).takeWhile (· ≠ c) = cs := by
  have all : ∀ x ∈ cs, (decide (x ≠ c)) = true := fun x hx => decide_eq_true fun e => h (e ▸ hx)
  rw [List.takeWhile_append_of_pos all]
  simp

theorem dropWhile_ne : (cs ++ c :: rest).dropWhile (· ≠ c) = c :: rest := by
  have all : ∀ x ∈ cs, (decide (x ≠ c)) = true := fun x hx => decide_eq_true fun e => h (e ▸ hx)
  rw [List.dropWhile_append_of_pos all]
  simp

end Split

/-- Words with one blank or two after each. -/
theorem splitWords_spaced {α : Type} {word gap : α → String} (l : List α)
    (unbroken : ∀ x, ∀ c ∈ (word x).toList, Text.isBlank c = false) (nonempty : ∀ x, (word x).toList ≠ [])
    (gaps : ∀ x, gap x = " " ∨ gap x = "  ") (rest : List Char) :
    splitWords [] ((String.join (l.map fun x => word x ++ gap x)).toList ++ rest) =
      l.map word ++ splitWords [] rest := by
  have blank : Text.isBlank ' ' = true := rfl
  induction l with
  | nil => simp
  | cons x l ih =>
    rw [List.map_cons, String.join_cons, String.toList_append, String.toList_append, List.append_assoc,
      List.append_assoc, splitWords_append (unbroken x), List.append_nil]
    rcases gaps x with one | two
    · rw [one]
      simp [splitWords, blank, nonempty x, ih, -String.toList_join]
    · rw [two]
      simp [splitWords, blank, nonempty x, ih, -String.toList_join]

end Shell

namespace Bus

open Shell

variable {n : Nat} (b : Bus n)

theorem mem_cellText {a : Address} {c : Char} (h : c ∈ (b.cellText a).toList) :
    c ≠ '|' ∧ Text.isBlank c = false := by
  have digits : ∀ d : Fin 16, Nat.digitChar d ≠ '|' ∧ Text.isBlank (Nat.digitChar d) = false := by decide
  have byte := (b.peekByte a).toNat_lt
  unfold cellText at h
  split at h
  · have dot : c = '.' := by simpa using h
    rw [dot]
    decide
  · rw [String.toList_ofList] at h
    rcases List.mem_cons.mp h with rfl | h
    · exact digits ⟨_, by omega⟩
    · cases List.mem_singleton.mp h
      exact digits ⟨_, Nat.mod_lt _ (by decide)⟩

theorem cellText_ne_nil (a : Address) : (b.cellText a).toList ≠ [] := by
  unfold cellText
  split <;> simp

theorem mem_cellsText {row : Address} {count : Nat} {c : Char} (h : c ∈ (b.cellsText row count).toList) :
    c = ' ' ∨ c ≠ '|' ∧ Text.isBlank c = false := by
  rw [cellsText, String.toList_join] at h
  obtain ⟨cell, hcell, h⟩ := List.mem_flatMap.mp h
  obtain ⟨j, -, rfl⟩ := List.mem_map.mp hcell
  rw [String.toList_append] at h
  rcases List.mem_append.mp h with h | h
  · exact .inr (b.mem_cellText h)
  · left
    split at h <;> simpa using h

theorem splitWords_cellsText (row : Address) (count : Nat) (rest : List Char) :
    splitWords [] ((b.cellsText row count).toList ++ rest) =
      (List.range count).map (fun j => b.cellText (row + UInt32.ofNat j)) ++ splitWords [] rest := by
  have gaps (j : Nat) : (if j = 7 then "  " else " ") = " " ∨ (if j = 7 then "  " else " ") = "  " := by
    by_cases eighth : j = 7 <;> simp [eighth]
  exact splitWords_spaced _ (fun j c hc => (b.mem_cellText hc).2) (fun j => b.cellText_ne_nil _) gaps rest

theorem read_rowText (row : Address) (count : Nat) :
    DumpRow.read (b.rowText row count) =
      ⟨Text.hex row, (List.range count).map fun j => b.cellText (row + UInt32.ofNat j),
        (List.range count).map fun j => b.charCell (row + UInt32.ofNat j)⟩ := by
  generalize hcharacters : (List.range count).map (fun j => b.charCell (row + UInt32.ofNat j)) = characters
  have text : (b.rowText row count).toList = (Text.hex row).toList ++
      ':' :: ((' ' :: ((b.cellsText row count).toList ++ [' '])) ++ '|' :: (characters ++ ['|'])) := by
    unfold rowText
    rw [hcharacters]
    simp
  have label : ':' ∉ (Text.hex row).toList := by
    rw [Text.hex, String.toList_append, List.mem_append, not_or]
    exact ⟨by decide, Text.not_mem_hexDigits (by decide) _ _⟩
  have inside : '|' ∉ (b.cellsText row count).toList := by
    intro h
    rcases b.mem_cellsText h with blank | other
    · cases blank
    · exact other.1 rfl
  have bar : '|' ∉ ' ' :: ((b.cellsText row count).toList ++ [' ']) := by
    simp [inside]
  have colon : '|' ∉ ':' :: ' ' :: ((b.cellsText row count).toList ++ [' ']) := by
    simp [inside]
  have read : Shell.words (String.ofList (' ' :: ((b.cellsText row count).toList ++ [' ']))) =
      (List.range count).map fun j => b.cellText (row + UInt32.ofNat j) := by
    rw [Shell.words, String.toList_ofList]
    exact (b.splitWords_cellsText row count [' ']).trans (List.append_nil _)
  unfold DumpRow.read
  simp only [text, takeWhile_ne label, dropWhile_ne label, List.tail_cons, takeWhile_ne bar, read]
  rw [← List.cons_append, dropWhile_ne colon, List.tail_cons, List.dropLast_concat, String.ofList_toList]

/-! ## A whole dump -/

def headerText (start : Address) (count : Nat) : String :=
  "Memory [" ++ Text.hex start ++ " - " ++ Text.hex (start + UInt32.ofNat count - 1) ++ "]:"

theorem oneLine_headerText (start : Address) (count : Nat) : Text.OneLine (headerText start count) := by
  simp only [headerText, Text.oneLine_append]
  exact ⟨⟨⟨⟨by decide, Text.oneLine_hex _ _⟩, by decide⟩, Text.oneLine_hex _ _⟩, by decide⟩

theorem charCell_ne_newline (a : Address) : b.charCell a ≠ '\n' := by
  show (if 32 ≤ b.peekByte a ∧ b.peekByte a < 127 then Char.ofUInt8 (b.peekByte a) else '.') ≠ _
  split
  · rename_i printable
    intro e
    have low := UInt8.le_iff_toNat_le.mp printable.1
    have code : (b.peekByte a).toNat = 10 := congrArg Char.toNat e
    rw [code] at low
    exact absurd low (by decide)
  · decide

theorem oneLine_rowText (row : Address) (count : Nat) : Text.OneLine (b.rowText row count) := by
  have cells : Text.OneLine (b.cellsText row count) := by
    intro h
    rcases b.mem_cellsText h with blank | other
    · cases blank
    · cases other.2
  have characters :
      Text.OneLine (String.ofList ((List.range count).map fun j => b.charCell (row + UInt32.ofNat j))) := by
    intro h
    rw [String.toList_ofList] at h
    obtain ⟨j, -, e⟩ := List.mem_map.mp h
    exact b.charCell_ne_newline _ e
  simp only [rowText, Text.oneLine_append]
  exact ⟨⟨⟨⟨⟨Text.oneLine_hex _ _, by decide⟩, cells⟩, by decide⟩, characters⟩, by decide⟩

theorem written_putDump (s : Text.Stream) (start : Address) (count : Nat) :
    (b.putDump s start count).written =
      s.written ++ String.join ((headerText start count :: b.rowTexts start 0 count).map Text.line) := by
  show (b.putRows _ start 0 count).written = _
  rw [written_putRows, List.map_cons, String.join_cons, Text.Stream.written_put, String.append_assoc]
  rfl

theorem dump_eq (start : Address) (count : Nat) :
    b.dump start count = String.join ((headerText start count :: b.rowTexts start 0 count).map Text.line) :=
  (b.written_putDump .fresh start count).trans String.empty_append

theorem putDump_eq (s : Text.Stream) (start : Address) (count : Nat) :
    b.putDump s start count = ⟨s.written ++ b.dump start count, .decimal, ' '⟩ := by
  rw [dump_eq, ← written_putDump]
  rfl

theorem lines_dump (start : Address) (count : Nat) :
    Text.lines (b.dump start count) = headerText start count :: b.rowTexts start 0 count := by
  rw [dump_eq]
  refine Text.lines_join fun l hl => ?_
  rcases List.mem_cons.mp hl with rfl | hl
  · exact oneLine_headerText start count
  · obtain ⟨k, -, rfl⟩ := List.mem_map.mp hl
    exact b.oneLine_rowText _ _

/-! ## Row by row and byte by byte -/

/-- Taken sixteen at a time the numbers below `count` come in order. -/
theorem flatMap_sixteens {α : Type} (f : Nat → α) (count : Nat) :
    ((List.range ((count + 15) / 16)).flatMap fun k =>
      (List.range (min 16 (count - 16 * k))).map fun j => f (16 * k + j)) = (List.range count).map f := by
  induction count using Nat.strongRecOn generalizing f with
  | ind count ih =>
    by_cases none : count = 0
    · rw [none]
      rfl
    have rows : (count + 15) / 16 = (count - 16 + 15) / 16 + 1 := by omega
    have later := ih (count - 16) (by omega) (fun i => f (16 + i))
    have next (k : Nat) : count - 16 * (k + 1) = count - 16 - 16 * k := by omega
    have place (k j : Nat) : 16 * (k + 1) + j = 16 + (16 * k + j) := by omega
    rw [rows, List.range_succ_eq_map, List.flatMap_cons, List.flatMap_map]
    simp only [Nat.succ_eq_add_one, next, place, later, Nat.mul_zero, Nat.zero_add, Nat.sub_zero]
    rcases Nat.le_total count 16 with short | long
    · rw [Nat.min_eq_right short, Nat.sub_eq_zero_of_le short]
      exact List.append_nil _
    · have all : List.range count = List.range 16 ++ (List.range (count - 16)).map (16 + ·) := by
        rw [← List.range_add, Nat.add_sub_cancel' long]
      rw [Nat.min_eq_left long, all, List.map_append, List.map_map]
      rfl

theorem rows_dump (start : Address) (count : Nat) :
    dumpRows (b.dump start count) = (List.range ((count + 15) / 16)).map fun k =>
      ⟨Text.hex (start + UInt32.ofNat (16 * k)),
        (List.range (min 16 (count - 16 * k))).map fun j => b.cellText (start + UInt32.ofNat (16 * k + j)),
        (List.range (min 16 (count - 16 * k))).map fun j => b.charCell (start + UInt32.ofNat (16 * k + j))⟩ := by
  have place (i j : Nat) : start + UInt32.ofNat i + UInt32.ofNat j = start + UInt32.ofNat (i + j) := by
    rw [UInt32.ofNat_add, UInt32.add_assoc]
  unfold dumpRows
  rw [lines_dump, List.tail_cons, rowTexts, List.map_map]
  simp only [Function.comp_def, Nat.zero_add, Nat.sub_zero, read_rowText, place]

/-- What is in no region is peeked at as 0, since its word is in none either. -/
theorem charCell_eq {b : Board} (wired : b.Wired) (a : Address) :
    b.charCell a =
      if (b.find? a).isSome ∧ 32 ≤ (lane (b.peek a) a).toNat ∧ (lane (b.peek a) a).toNat ≤ 126 then
        Char.ofUInt8 (lane (b.peek a) a)
      else '.' := by
  show (if 32 ≤ lane (b.peek a) a ∧ lane (b.peek a) a < 127 then Char.ofUInt8 (lane (b.peek a) a) else '.') = _
  cases found : b.find? a with
  | none =>
    have nothing : b.peek a = 0 := by
      unfold peek
      rw [wired.find?_align, found]
    rw [nothing, lane_zero]
    rfl
  | some r =>
    have printable : 32 ≤ lane (b.peek a) a ∧ lane (b.peek a) a < 127 ↔
        (some r).isSome ∧ 32 ≤ (lane (b.peek a) a).toNat ∧ (lane (b.peek a) a).toNat ≤ 126 := by
      rw [UInt8.le_iff_toNat_le, UInt8.lt_iff_toNat_lt]
      exact ⟨fun h => ⟨rfl, h.1, Nat.le_of_lt_succ h.2⟩, fun h => ⟨h.2.1, Nat.lt_succ_of_le h.2.2⟩⟩
    simp only [printable]

/-- What the dump of `count` bytes from `start` up does to a stream and to a session, and what its
    rows say when they are read back. -/
structure Dumps (b : Board) (s : Text.Stream) (start : Address) (count : Nat) : Prop where
  stream : b.putDump s start count = ⟨s.written ++ b.dump start count, .decimal, ' '⟩
  session : ∀ (session : Session) (files : Files), session.board = b →
    session.execute files (.memory start count) = (b.dump start count, session)
  lines : b.dump start count = String.join ((Text.lines (b.dump start count)).map Text.line)
  header : (Text.lines (b.dump start count)).head? = some (headerText start count)
  labels : (dumpRows (b.dump start count)).map (·.label) =
    (List.range ((count + 15) / 16)).map fun k => Text.hex (start + UInt32.ofNat (16 * k))
  cells : (dumpRows (b.dump start count)).flatMap (·.cells) = (List.range count).map fun i =>
    let a := start + UInt32.ofNat i
    let byte := lane (b.peek a) a
    if (b.find? a).isNone then ".."
    else String.ofList [Nat.digitChar (byte.toNat / 16), Nat.digitChar (byte.toNat % 16)]
  characters : (dumpRows (b.dump start count)).flatMap (·.characters) = (List.range count).map fun i =>
    let a := start + UInt32.ofNat i
    let byte := lane (b.peek a) a
    if (b.find? a).isSome ∧ 32 ≤ byte.toNat ∧ byte.toNat ≤ 126 then Char.ofUInt8 byte else '.'

/-- A dump shows every byte once, at its own address and without reading it, and leaves the
    stream it is written to as it was. -/
theorem dump_faithful (b : Board) (wired : b.Wired) (s : Text.Stream) (start : Address) (count : Nat) :
    Dumps b s start count := by
  have read := b.rows_dump start count
  constructor
  case stream => exact b.putDump_eq s start count
  case session =>
    intro session files here
    show (session.board.dump start count, session) = _
    rw [here]
  case lines =>
    rw [b.lines_dump]
    exact b.dump_eq start count
  case header =>
    rw [b.lines_dump]
    rfl
  case labels =>
    rw [read, List.map_map]
    rfl
  case cells =>
    rw [read, List.flatMap_map]
    exact flatMap_sixteens (fun i => b.cellText (start + UInt32.ofNat i)) count
  case characters =>
    rw [read, List.flatMap_map]
    refine (flatMap_sixteens (fun i => b.charCell (start + UInt32.ofNat i)) count).trans ?_
    exact List.map_congr_left fun i _ => charCell_eq wired (start + UInt32.ofNat i)

/-- From eight bytes below the end of the address space to eight above its beginning. -/
theorem dump_faithful_roundTheEnd :
    let b : Board := Board.empty.loadBytes 0 [0x41, 0x0A, 0x7C, 0xFF]
    let rows := dumpRows (b.dump 0xFFFFFFF8 17)
    b.Wired ∧ rows.map (·.label) = ["0xfffffff8", "0x00000008"] ∧
      rows.flatMap (·.cells) =
        List.replicate 8 ".." ++ ["41", "0a", "7c", "ff", "00", "00", "00", "00", "00"] ∧
      rows.flatMap (·.characters) = "........A.|......".toList := by
  intro b rows
  have wired : b.Wired := wired_empty.of_build (build_loadBytes _ _ _)
  have dumped := dump_faithful b wired .fresh 0xFFFFFFF8 17
  exact ⟨wired, dumped.labels.trans (by decide +kernel), dumped.cells.trans (by decide +kernel),
    dumped.characters.trans (by decide +kernel)⟩

end Bus

end FiveStageArm
