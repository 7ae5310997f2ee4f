import Lox.Number.Decimal

/-!
# Tokens

A token is a kind, the text it was cut from and the line that text ends on.  Kinds without a fixed
spelling are identifiers and the two literal kinds, whose tokens also carry what the literal
denotes; the type of that payload depends on the kind, so a string token cannot lack its contents.

* `Symbol`, `Keyword` — the kinds with one spelling each.
* `Kind`, `Token` — all kinds, and a token of one of them.
* `Token.literalText`, `Token.display` — how a token is written in a token listing.
-/

namespace Lox

/-! ## Kinds with a fixed spelling -/

/-- Punctuation and operators. -/
inductive Symbol where
  | leftParen | rightParen | leftBrace | rightBrace
  | comma | dot | minus | plus | semicolon | slash | star
  | bang | bangEqual | equal | equalEqual
  | greater | greaterEqual | less | lessEqual
  deriving DecidableEq, Repr

namespace Symbol

/-- All symbols. -/
def all : List Symbol :=
  [leftParen, rightParen, leftBrace, rightBrace, comma, dot, minus, plus, semicolon, slash, star,
    bang, bangEqual, equal, equalEqual, greater, greaterEqual, less, lessEqual]

/-- The characters of a symbol. -/
def spelling : Symbol → List Char
  | leftParen => ['(']
  | rightParen => [')']
  | leftBrace => ['{']
  | rightBrace => ['}']
  | comma => [',']
  | dot => ['.']
  | minus => ['-']
  | plus => ['+']
  | semicolon => [';']
  | slash => ['/']
  | star => ['*']
  | bang => ['!']
  | bangEqual => ['!', '=']
  | equal => ['=']
  | equalEqual => ['=', '=']
  | greater => ['>']
  | greaterEqual => ['>', '=']
  | less => ['<']
  | lessEqual => ['<', '=']

/-- The name of a symbol in a listing. -/
def name : Symbol → String
  | leftParen => "LEFT_PAREN"
  | rightParen => "RIGHT_PAREN"
  | leftBrace => "LEFT_BRACE"
  | rightBrace => "RIGHT_BRACE"
  | comma => "COMMA"
  | dot => "DOT"
  | minus => "MINUS"
  | plus => "PLUS"
  | semicolon => "SEMICOLON"
  | slash => "SLASH"
  | star => "STAR"
  | bang => "BANG"
  | bangEqual => "BANG_EQUAL"
  | equal => "EQUAL"
  | equalEqual => "EQUAL_EQUAL"
  | greater => "GREATER"
  | greaterEqual => "GREATER_EQUAL"
  | less => "LESS"
  | lessEqual => "LESS_EQUAL"

/-- The symbol with the given spelling. -/
def ofSpelling? (text : List Char) : Option Symbol :=
  all.find? (·.spelling == text)

/-- `all` leaves no symbol out. -/
theorem mem_all (s : Symbol) : s ∈ all := by
  cases s <;> decide

/-- A symbol is found by its spelling. -/
theorem ofSpelling?_spelling (s : Symbol) : ofSpelling? s.spelling = some s := by
  cases s <;> decide

end Symbol

/-- Reserved words. -/
inductive Keyword where
  | and | class_ | else_ | false | fun_ | for_ | if_ | nil
  | or | print | return_ | super | this | true | var | while_
  deriving DecidableEq, Repr

namespace Keyword

/-- All keywords. -/
def all : List Keyword :=
  [and, class_, else_, false, fun_, for_, if_, nil, or, print, return_, super, this, true, var,
    while_]

/-- The word itself. -/
def spelling : Keyword → List Char
  | and => ['a', 'n', 'd']
  | class_ => ['c', 'l', 'a', 's', 's']
  | else_ => ['e', 'l', 's', 'e']
  | false => ['f', 'a', 'l', 's', 'e']
  | fun_ => ['f', 'u', 'n']
  | for_ => ['f', 'o', 'r']
  | if_ => ['i', 'f']
  | nil => ['n', 'i', 'l']
  | or => ['o', 'r']
  | print => ['p', 'r', 'i', 'n', 't']
  | return_ => ['r', 'e', 't', 'u', 'r', 'n']
  | super => ['s', 'u', 'p', 'e', 'r']
  | this => ['t', 'h', 'i', 's']
  | true => ['t', 'r', 'u', 'e']
  | var => ['v', 'a', 'r']
  | while_ => ['w', 'h', 'i', 'l', 'e']

/-- The name of a keyword in a listing: its spelling in capitals. -/
def name (k : Keyword) : String :=
  String.ofList (k.spelling.map Char.toUpper)

/-- The keyword with the given spelling. -/
def ofSpelling? (text : List Char) : Option Keyword :=
  all.find? (·.spelling == text)

/-- `all` leaves no keyword out. -/
theorem mem_all (k : Keyword) : k ∈ all := by
  cases k <;> decide

/-- A keyword is found by its spelling. -/
theorem ofSpelling?_spelling (k : Keyword) : ofSpelling? k.spelling = some k := by
  cases k <;> decide

end Keyword

/-! ## All kinds -/

/-- What a token is, its text, line and payload aside. -/
inductive Kind where
  | symbol (s : Symbol)
  | keyword (k : Keyword)
  | identifier
  | string
  | number
  /-- The end of the source. -/
  | eof
  deriving DecidableEq, Repr

namespace Kind

/-- All kinds. -/
def all : List Kind :=
  Symbol.all.map symbol ++ Keyword.all.map keyword ++ [identifier, string, number, eof]

/-- The name of a kind in a listing. -/
def name : Kind → String
  | symbol s => s.name
  | keyword k => k.name
  | identifier => "IDENTIFIER"
  | string => "STRING"
  | number => "NUMBER"
  | eof => "EOF"

/-- The kind with the given name. -/
def ofName? (text : String) : Option Kind :=
  all.find? (·.name == text)

/-- What a token of this kind denotes beyond its kind: the contents of a string, the value of a
number, nothing for the others. -/
@[reducible]
def Payload : Kind → Type
  | string => String
  | number => Float
  | _ => Unit

/-- `all` leaves no kind out. -/
theorem mem_all (k : Kind) : k ∈ all := by
  cases k with
  | symbol s => simp [all, Symbol.mem_all]
  | keyword w => simp [all, Keyword.mem_all]
  | _ => simp [all]

end Kind

/-- A token: its kind, the text it was cut from, the line that text ends on, and what it
denotes. -/
structure Token where
  kind : Kind
  lexeme : String
  line : Nat
  payload : kind.Payload

namespace Token

instance : Inhabited Token :=
  ⟨.eof, "", 1, ()⟩

/-- Tokens are compared by kind, text and line; what they denote is not looked at. -/
instance : BEq Token where
  beq a b := a.kind == b.kind && a.lexeme == b.lexeme && a.line == b.line

/-- The value of a number in a listing: a whole number below `2 ^ 63` with the one place `.0` and
no sign on zero, any other number as the shortest decimal. -/
def numberText (x : Float) : String :=
  if Number.isWhole x && Number.wholePart x < Nat.pow 2 63 then
    Int.repr (Number.toInt64 x).toInt ++ ".0"
  else Number.shortest x

/-- What a token denotes, as listed; `null` for kinds that carry nothing. -/
def literalText : Token → String
  | ⟨.string, _, _, contents⟩ => contents
  | ⟨.number, _, _, value⟩ => numberText value
  | _ => "null"

/-- The line of a listing: kind, text and what the token denotes. -/
def display (t : Token) : String :=
  t.kind.name ++ " " ++ t.lexeme ++ " " ++ t.literalText

end Token

end Lox
