import Lox.Diagnostic
import Lox.Tree

/-!
# Reading tokens

A grammar rule reads tokens one after another and always has one token in view: the next one or,
where there is none left, one that stands for the end.  A rule that fails leaves the reader where
the fault was found, which is where recovery starts.

* `Reader`, `Parser` — what tokens are read from, and what reads from it.
* `accept`, `expect`, `fail` — the steps all rules are made of; they take no token at the end.
* `take` — the step of the rules that only look at the token in view.
* `separated` — items with commas between them, up to a limit.
* `recovering` — a rule whose fault is recorded, after which reading goes on at the next statement.
-/

namespace Lox.Parse

/-- A syntax fault and the line it is blamed on. -/
abbrev Fault := Nat × SyntaxFault

/-- What tokens are read from. -/
class Reader (σ : Type) where
  /-- Whether there is no token left to take. -/
  atEnd : σ → Bool
  /-- The token in view. -/
  seen : σ → Token
  /-- The reader behind the token in view; at the end it stays where it is. -/
  advance : σ → σ
  /-- An identity that no other access has. -/
  mint : σ → NodeId × σ
  /-- The reader at the next statement, after a fault was recorded. -/
  recover : Fault → σ → σ

/-- A grammar rule. -/
abbrev Parser (σ : Type) := EStateM Fault σ

variable {σ α : Type} [Reader σ]

/-! ## Steps -/

/-- Fails at the token in view. -/
def fail (fault : SyntaxFault) : Parser σ α :=
  fun c => .error ((Reader.seen c).line, fault) c

/-- Whether there is no token left to take. -/
def ended : Parser σ Bool :=
  fun c => .ok (Reader.atEnd c) c

/-- Whether there is a token to take that is of the given kind. -/
def sees (kind : Kind) : Parser σ Bool :=
  fun c => .ok (!Reader.atEnd c && (Reader.seen c).kind == kind) c

/-- Takes the token in view if its kind is among the given ones, without a look for the end. -/
def takeAny (kinds : List Kind) : Parser σ (Option Token) := fun c =>
  if (Reader.seen c).kind ∈ kinds then .ok (some (Reader.seen c)) (Reader.advance c)
  else .ok none c

/-- Takes the token in view if it is of the given kind, without a look for the end. -/
def take (kind : Kind) : Parser σ (Option Token) :=
  takeAny [kind]

/-- Takes a token if there is one left and its kind is among the given ones. -/
def acceptAny (kinds : List Kind) : Parser σ (Option Token) := fun c =>
  if Reader.atEnd c then .ok none c else takeAny kinds c

/-- Takes a token if there is one left of the given kind. -/
def accept (kind : Kind) : Parser σ (Option Token) :=
  acceptAny [kind]

/-- Takes a token, which must be of the given kind. -/
def expect (kind : Kind) (what : Expected) : Parser σ Token := do
  match ← accept kind with
  | some t => return t
  | none => fail (.expected what)

/-- Takes a constant, if one is in view. -/
def acceptLiteral : Parser σ (Option Literal) := do
  match ← acceptAny [.keyword .false, .keyword .true, .keyword .nil] with
  | some t => return Literal.ofToken? t
  | none =>
    match ← takeAny [.number, .string] with
    | some t => return Literal.ofToken? t
    | none => return none

/-- An identity no other access has. -/
def fresh : Parser σ NodeId := fun c =>
  let (id, c) := Reader.mint c
  .ok id c

/-- One or more items with commas between them, at most `room` of them. -/
def separated (tooMany : SyntaxFault) (item : Parser σ α) : (room : Nat) → Parser σ (List α)
  | 0 => fail tooMany
  | room + 1 => do
    let x ← item
    match ← accept (.symbol .comma) with
    | some _ => return x :: (← separated tooMany item room)
    | none => return [x]

/-- What a function may take at most: parameters when it is declared, arguments when called. -/
def maxArity : Nat := 255

/-- Any number of items up to the closing parenthesis, which is not taken. -/
def parenthesized (tooMany : SyntaxFault) (item : Parser σ α) : Parser σ (List α) := do
  if ← sees (.symbol .rightParen) then return []
  else separated tooMany item maxArity

/-- A rule whose fault is recorded and gives no statement. -/
def recovering (rule : Parser σ Stmt) : Parser σ (Option Stmt) := fun c =>
  match rule c with
  | .ok s c => .ok (some s) c
  | .error fault c => .ok none (Reader.recover fault c)

end Lox.Parse
