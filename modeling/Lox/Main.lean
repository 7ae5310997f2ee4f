import Lox.CommandLine

/-!
# The program

Reads the arguments, files and standard input, and writes what the commands report.
-/

namespace Lox

/-- A session whose clock goes on from the given number of seconds, by a microsecond for each
reading. -/
def Session.startingAt (seconds : Float) : Session :=
  .initial (fun reading => seconds + reading.toFloat / 1000000) {}

/-- Writes a report and gives its status. -/
def Report.emit (r : Report) : IO UInt32 := do
  IO.print r.stdout
  IO.eprint r.stderr
  return r.status.toUInt32

/-- What is found under the name of a file. -/
def contentsOf (name : String) : IO Command.Contents := do
  try
    return .ok (← IO.FS.readBinFile name).toList
  catch
    | .noFileOrDirectory .. => return .error Command.noSuchFile
    | e => return .error (toString e)

/-- The bytes up to and with the next line feed, or up to the end of standard input. -/
partial def readLine (stdin : IO.FS.Stream) (line : ByteArray) : IO ByteArray := do
  let byte ← stdin.read 1
  if byte.isEmpty || byte == ⟨#[0x0A]⟩ then return line ++ byte else readLine stdin (line ++ byte)

/-- Answers the lines of standard input as they come, each by a round of the dialogue. -/
partial def converse (stdin : IO.FS.Stream) (started : Nat) (s : Session) : IO UInt32 := do
  IO.print Prompt.mark
  (← IO.getStdout).flush
  let line ← readLine stdin .empty
  let seconds := ((← IO.monoMsNow) - started).toFloat / 1000
  let s := { s with machine := { s.machine with clock := (Session.startingAt seconds).machine.clock } }
  let round := Prompt.round s line.toList
  IO.print round.stdout
  IO.eprint round.stderr
  match round.next with
  | .ok (s, _) => converse stdin started s
  | .error status => return status.toUInt32

end Lox

open Lox in
/-- The program. -/
def main (arguments : List String) : IO UInt32 := do
  match Request.ofArguments? arguments with
  | some (.file command name) => (command.onFile (.startingAt 0) name (← contentsOf name)).emit
  | some .prompt => converse (← IO.getStdin) (← IO.monoMsNow) (.startingAt 0)
  | none => usage.emit
