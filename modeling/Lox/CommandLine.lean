import Lox.Session
import Lox.Text.Blank
import Lox.Text.Json
import Lox.Text.Utf8
import Lox.Tree.Printed

/-!
# The command line

What each command writes, and the status it ends with, as a function of the bytes it is given.

* `Command.onFile` — a command on the contents of a file.
* `Prompt.onInput` — a dialogue in which every line is run in one session.
* `Request.ofArguments?` — what is asked for on the command line.

The status is 0 when all went well, 65 when a source was refused, 70 when a program failed while
it ran, and 1 when its input could not be read.
-/

namespace Lox

/-- What a command writes, and its status. -/
structure Report where
  stdout : String := ""
  stderr : String := ""
  status : Nat := 0
  deriving DecidableEq, Repr

/-- Texts as lines. -/
def unlines (lines : List String) : String :=
  String.join (lines.map (· ++ "\n"))

/-- Errors, a line for each. -/
def errorLines (errors : List Diagnostic) : String :=
  unlines (errors.map Diagnostic.text)

/-- The status for errors: whether a program failed while it ran, or was refused. -/
def statusOf (errors : List Diagnostic) : Nat :=
  if errors.isEmpty then 0 else if errors.any Diagnostic.isRuntime then 70 else 65

/-- The report on an input that cannot be read. -/
def unreadable (context cause : String) : Report where
  stderr := "Error: " ++ context ++ "\n\nCaused by:\n    " ++ cause ++ "\n"
  status := 1

/-! ## Commands on a source -/

/-- A token in the JSON listing. -/
def Token.toJson (t : Token) : Json :=
  let kind := match t with
    | ⟨.string, _, _, contents⟩ => .object [("STRING", .string contents)]
    | ⟨.number, _, _, value⟩ => .object [("NUMBER", .ofFloat value)]
    | _ => .string t.kind.name
  .object [("token_type", kind), ("lexeme", .string t.lexeme),
    ("line", .number (Nat.repr t.line))]

inductive Command where
  /-- Lists the tokens, as lines or as JSON. -/
  | tokenize (json : Bool)
  /-- Prints the trees of the statements. -/
  | parse
  /-- Runs the program. -/
  | run
  deriving DecidableEq, Repr

namespace Command

/-- The listing of tokens. -/
def listing (json : Bool) (tokens : List Token) : String :=
  if json then (Json.array (tokens.map Token.toJson)).pretty ++ "\n"
  else unlines (tokens.map Token.display)

/-- A command on a source; a listing is written even if there are lexical faults. -/
def onSource (s : Session) (source : String) : Command → Report
  | tokenize json =>
    let items := scan source
    let errors := Scan.faults items
    ⟨listing json (Scan.tokens items), errorLines errors, statusOf errors⟩
  | parse =>
    match s.read source with
    | (.done program, _) => { stdout := unlines (Stmt.texts program) }
    | (outcome, _) =>
      { stderr := errorLines outcome.errors, status := statusOf outcome.errors }
  | run =>
    let (outcome, s) := s.run abundant source
    ⟨s.takeText.1, errorLines outcome.errors, statusOf outcome.errors⟩

/-- What was found under the name of a file: its bytes, or why there are none. -/
abbrev Contents := Except String (List UInt8)

/-- Why there are no bytes when there is no file. -/
def noSuchFile : String :=
  "No such file or directory (os error 2)"

/-- The name of a file in a report, between quotes. -/
def quotedName (name : String) : String :=
  String.ofList ('"' :: name.toList.flatMap (fun
    | '"' => ['\\', '"']
    | '\\' => ['\\', '\\']
    | '\n' => ['\\', 'n']
    | '\r' => ['\\', 'r']
    | '\t' => ['\\', 't']
    | c => [c]) ++ ['"'])

/-- **A command on a file.** -/
def onFile (s : Session) (name : String) (contents : Contents) (command : Command) : Report :=
  match contents with
  | .error cause => unreadable ("Failed to open file " ++ quotedName name) cause
  | .ok bytes =>
    match Utf8.decode bytes with
    | .error fault =>
      unreadable ("File " ++ quotedName name ++ " is not valid UTF-8") fault.message
    | .ok source => command.onSource s source

end Command

/-! ## The prompt -/

namespace Prompt

/-- What is written before a line is read. -/
def mark : String := "> "

/-- The answer to a line. -/
structure Answer where
  stdout : String := ""
  stderr : String := ""
  /-- The session to go on with; none if the line could not be read. -/
  session? : Option Session

/-- Runs a line, unless it is blank.  Errors end the line and not the dialogue. -/
def respond (s : Session) (line : String) : Answer :=
  if isBlankLine line then { session? := some s }
  else
    let (outcome, s) := s.run abundant line
    let (text, s) := s.takeText
    { stdout := text, stderr := errorLines outcome.errors, session? := some s }

/-- Whether a byte is no line feed. -/
def inLine (b : UInt8) : Bool :=
  b != 0x0A

/-- A line without the carriage return that may stand before its line feed. -/
def withoutReturn (line : List UInt8) : List UInt8 :=
  match line.reverse with
  | 0x0D :: reversed => reversed.reverse
  | _ => line

/-- The first line of some bytes, without its end, and the bytes after it; none if there are no
bytes. -/
def nextLine? (bytes : List UInt8) : Option (List UInt8 × List UInt8) :=
  if bytes.isEmpty then none
  else
    let line := bytes.takeWhile inLine
    match bytes.dropWhile inLine with
    | [] => some (line, [])
    | _ :: rest => some (withoutReturn line, rest)

/-- The report on a line that is not text. -/
def unreadableLine : Report :=
  unreadable "Failed to read from stdin" "stream did not contain valid UTF-8"

/-- The answer to a line of bytes. -/
def respondTo (s : Session) (line : List UInt8) : Answer :=
  match Utf8.decode line with
  | .ok text => respond s text
  | .error _ => { stderr := unreadableLine.stderr, session? := none }

/-- A round of a dialogue, after the mark. -/
structure Round where
  stdout : String := ""
  stderr : String := ""
  /-- The session and the bytes to go on with, or the status that the dialogue ends with. -/
  next : Except Nat (Session × List UInt8)

/-- **One round of a dialogue**: the answer to the first line of some bytes.  The dialogue ends
where there are no bytes, and at a line that is not text. -/
def round (s : Session) (bytes : List UInt8) : Round :=
  match nextLine? bytes with
  | none => { stdout := "\n", next := .error 0 }
  | some (line, rest) =>
    match respondTo s line with
    | ⟨stdout, stderr, some s⟩ => ⟨stdout, stderr, .ok (s, rest)⟩
    | ⟨stdout, stderr, none⟩ => ⟨stdout, stderr, .error unreadableLine.status⟩

/-- A dialogue of at most `bound` lines: the report on it, and the session it leaves. -/
def dialogue : (bound : Nat) → Session → List UInt8 → Report × Session
  | 0, s, _ => ({ stdout := mark ++ "\n" }, s)
  | bound + 1, s, bytes =>
    match round s bytes with
    | ⟨stdout, stderr, .ok (s, rest)⟩ =>
      let (after, s) := dialogue bound s rest
      (⟨mark ++ stdout ++ after.stdout, stderr ++ after.stderr, after.status⟩, s)
    | ⟨stdout, stderr, .error status⟩ => (⟨mark ++ stdout, stderr, status⟩, s)

/-- **The dialogue over all of an input.**  Every line takes at least one byte. -/
def onInput (s : Session) (bytes : List UInt8) : Report :=
  (dialogue bytes.length s bytes).1

end Prompt

/-! ## Arguments -/

/-- What was asked for on the command line. -/
inductive Request where
  | file (command : Command) (name : String)
  | prompt
  deriving DecidableEq, Repr

/-- The request that arguments make, if they make one. -/
def Request.ofArguments? : List String → Option Request
  | ["tokenize", name] => some (file (.tokenize false) name)
  | ["tokenize", name, "--json"] | ["tokenize", "--json", name] =>
    some (file (.tokenize true) name)
  | ["parse", name] => some (file .parse name)
  | ["run", name] => some (file .run name)
  | ["run"] => some prompt
  | _ => none

/-- The report on arguments that make no request. -/
def usage : Report where
  stderr := "Usage: lox tokenize FILE [--json] | parse FILE | run [FILE]\n"
  status := 2

end Lox
