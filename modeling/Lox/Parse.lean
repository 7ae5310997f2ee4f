import Lox.Parse.Position
import Lox.Parse.Statement

/-!
# Parsing a program

A list of tokens becomes the statements that are free of faults and the faults that were found.

* `Parsed` — the result of a parse.
* `parse` — the parse of a list of tokens.
-/

namespace Lox

/-- What a list of tokens was parsed to. -/
structure Parsed where
  /-- The statements in which no fault was found. -/
  statements : List Stmt
  /-- The faults in the order they were recorded: those inside a declaration before its own. -/
  faults : List Parse.Fault
  /-- The first identity that no access in the statements has. -/
  nextNode : NodeId

/-- The faults of a parse, as reported. -/
def Parsed.diagnostics (p : Parsed) : List Diagnostic :=
  p.faults.map fun (line, fault) => .syntactic line fault

namespace Parse

/-- All declarations up to the end. -/
def program {σ : Type} [Reader σ] (bound : Nat) : Parser σ (List Stmt) :=
  declarations (declaration bound) false bound

end Parse

/-- **The parse of a list of tokens**, whose accesses are given identities from `nextNode` on. -/
def parse (tokens : List Token) (nextNode : NodeId) : Parsed :=
  if nonempty : 0 < tokens.toArray.size then
    let start : Parse.Position := ⟨tokens.toArray, 0, nextNode, #[], nonempty, Nat.zero_le _⟩
    match Parse.program (tokens.length + 1) start with
    | .ok statements p => ⟨statements, p.faults.toList, p.nextNode⟩
    | .error fault p => ⟨[], (p.faults.push fault).toList, p.nextNode⟩
  else ⟨[], [], nextNode⟩

end Lox
