import Lox.Evaluation
import Lox.Parse
import Lox.Scan

/-!
# Sessions

A session runs one source after another on one machine: globals, functions and objects that an
earlier source made are there for a later one, whatever became of the earlier one.

* `Session` — a machine, and the first node identity that no tree has yet.
* `Outcome` — a result, the errors there were instead, or neither within the bound.
* `Session.read` — the statements of a source.
* `Session.run` — all stages on a source, each only if the one before found no fault.

No two trees of a session share a node identity, so the distances of one program never stand in
for those of another.
-/

namespace Lox

/-- What became of a source or a step. -/
inductive Outcome (α : Type) where
  | done (a : α)
  /-- The errors, at least one. -/
  | failed (errors : List Diagnostic)
  /-- The bound was used up. -/
  | exhausted

/-- The errors of an outcome. -/
def Outcome.errors {α : Type} : Outcome α → List Diagnostic
  | failed errors => errors
  | _ => []

/-- A bound that no program reaches in a lifetime. -/
def abundant : Nat := Nat.pow 2 62

/-- A machine, and the first node identity that no tree has yet. -/
structure Session where
  machine : Machine
  nextNode : NodeId := 0

namespace Session

/-- A session on which nothing has run. -/
def initial (clock : Nat → Float) (sink : Sink) : Session where
  machine := .initial clock sink

/-- The statements of a source, if it has neither lexical faults nor syntax faults.  The machine
stays as it is. -/
def read (source : String) (s : Session) : Outcome (List Stmt) × Session :=
  let items := scan source
  match Scan.faults items with
  | [] =>
    let parsed := parse (Scan.tokens items) s.nextNode
    let s := { s with nextNode := parsed.nextNode }
    match parsed.diagnostics with
    | [] => (.done parsed.statements, s)
    | faults => (.failed faults, s)
  | faults => (.failed faults, s)

/-- Takes a step on the machine. -/
def perform {α : Type} (step : Eval α) : Session → Outcome α × Session
  | ⟨machine, nextNode⟩ =>
    match step machine with
    | .ok a machine => (.done a, ⟨machine, nextNode⟩)
    | .error (.failed d) machine => (.failed [d], ⟨machine, nextNode⟩)
    | .error .exhausted machine => (.exhausted, ⟨machine, nextNode⟩)

/-- Adds the distances of a program to those the machine knows. -/
def resolve (program : List Stmt) (s : Session) : Outcome Unit × Session :=
  match Lox.resolve program with
  | .ok entries =>
    (.done (), { s with
      machine := { s.machine with distances := Distances.add s.machine.distances entries } })
  | .error (line, fault) => (.failed [.binding line fault], s)

/-- Runs a program with the distances the machine knows. -/
def interpret (bound : Nat) (program : List Stmt) (s : Session) : Outcome Unit × Session :=
  s.perform (Lox.interpret bound program)

/-- Resolves a program and runs it. -/
def runProgram (bound : Nat) (program : List Stmt) (s : Session) : Outcome Unit × Session :=
  match s.resolve program with
  | (.done (), s) => s.interpret bound program
  | other => other

/-- **Runs a source.** -/
def run (bound : Nat) (source : String) (s : Session) : Outcome Unit × Session :=
  match s.read source with
  | (.done program, s) => s.runProgram bound program
  | (.failed errors, s) => (.failed errors, s)
  | (.exhausted, s) => (.exhausted, s)

/-- Executes statements one after another up to the first error, and collects how each one
ended; a return does not keep the next one from being executed. -/
def executeEach (bound : Nat) : List Stmt → Session → List Flow × Outcome Unit × Session
  | [], s => ([], .done (), s)
  | stmt :: rest, s =>
    match s.perform (execute bound stmt) with
    | (.done flow, s) =>
      let (flows, outcome, s) := executeEach bound rest s
      (flow :: flows, outcome, s)
    | (.failed errors, s) => ([], .failed errors, s)
    | (.exhausted, s) => ([], .exhausted, s)

/-- What was printed, and the session with that text taken out. -/
def takeText (s : Session) : String × Session :=
  let (text, machine) := s.machine.takeText
  (text, { s with machine })

end Session

end Lox
