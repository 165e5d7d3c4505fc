/-
  FiveStageArm.Main — the command line. It reads and writes bytes, one character each, and
  leaves every decision to the session.
-/

import FiveStageArm.Shell.CommandLine

namespace FiveStageArm.Shell

def writeText (stream : IO.FS.Stream) (s : String) : IO Unit := do
  stream.write (ByteArray.mk (Text.toBytes s).toArray)
  stream.flush

/-- The bytes of a line up to its line feed; `none` at the end of the input. -/
partial def readLine (stream : IO.FS.Stream) (line : ByteArray) : IO (Option String) := do
  match (← stream.read 1).toList with
  | [] => return if line.isEmpty then none else some (Text.ofBytes line.toList)
  | b :: _ => if b = 10 then return some (Text.ofBytes line.toList) else readLine stream (line.push b)

/-- The named file, if it can be read. -/
def readFile (name : String) : IO Files := do
  let path := (String.fromUTF8? (ByteArray.mk (Text.toBytes name).toArray)).getD name
  try
    let content ← IO.FS.readBinFile path
    return fun file => if file = name then some content.toList else none
  catch _ => return fun _ => none

/-- The file a line names, if it is a load. -/
def filesFor (line : String) : IO Files :=
  match Command.parse line with
  | .ok (.load file _) => readFile file
  | _ => return fun _ => none

partial def converse (s : Session) : IO Unit := do
  let out ← IO.getStdout
  writeText out (promptText s)
  match ← readLine (← IO.getStdin) .empty with
  | none => writeText out goodbyeText
  | some line =>
    let r := s.respond (← filesFor line) line
    writeText out r.output
    if r.continues then converse r.session else writeText out goodbyeText

end FiveStageArm.Shell

open FiveStageArm Shell in
def main (args : List String) : IO UInt32 := do
  let args := args.map fun a => Text.ofBytes a.toUTF8.toList
  let files ← match args with
    | file :: _ => readFile file
    | [] => pure fun _ => none
  match start files args with
  | .ok (output, s) =>
    writeText (← IO.getStdout) (output ++ welcomeText)
    converse s
    return 0
  | .error e =>
    writeText (← IO.getStdout) e.output
    writeText (← IO.getStderr) e.errors
    return 1
