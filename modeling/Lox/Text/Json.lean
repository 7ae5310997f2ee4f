import Lox.Number.Decimal

/-!
# JSON texts

* `Json` — a JSON value; numbers are kept as their text, and the fields of an object in order.
* `Json.ofFloat` — a double as a number.
* `Json.pretty` — the text of a value, spread over lines.
-/

namespace Lox

/-- A JSON value. -/
inductive Json where
  | null
  | number (text : String)
  | string (s : String)
  | array (items : List Json)
  | object (fields : List (String × Json))

namespace Json

/-! ## Strings -/

/-- A digit of base sixteen, letters small. -/
def hexDigit (n : Nat) : Char :=
  Nat.digitChar n

/-- A character inside a JSON string: quotes, backslashes and control characters are escaped. -/
def escape (c : Char) : List Char :=
  match c with
  | '"' => ['\\', '"']
  | '\\' => ['\\', '\\']
  | '\n' => ['\\', 'n']
  | '\t' => ['\\', 't']
  | '\r' => ['\\', 'r']
  | '\x08' => ['\\', 'b']
  | '\x0c' => ['\\', 'f']
  | c =>
    if c.toNat < 0x20 then ['\\', 'u', '0', '0', hexDigit (c.toNat / 16), hexDigit (c.toNat % 16)]
    else [c]

/-- A JSON string. -/
def quote (s : String) : String :=
  String.ofList ('"' :: s.toList.flatMap escape ++ ['"'])

/-! ## Numbers -/

/-- The smallest and the largest exponent of a leading digit that are written without an
exponent. -/
def positionalExponents : Int × Int := (-5, 15)

/-- A decimal as a JSON number: with a place after the point if it is whole, and with an exponent
if its leading digit is far from the point. -/
def decimalText (d : Number.Decimal) : String :=
  let e := d.leadingExponent
  if positionalExponents.1 ≤ e ∧ e ≤ positionalExponents.2 then
    d.positional ++ (if 0 ≤ d.exponent then ".0" else "")
  else d.scientific

/-- A double as a number, in the fewest digits that read back; of two equally near decimals the
one with an even last digit.  What is not finite is `null`. -/
def ofFloat (x : Float) : Json :=
  match Number.decode x with
  | .finite negative m e =>
    number (Number.sign negative
      ++ decimalText (Number.fewestDigits .toEven (Number.body x) m e))
  | _ => null

/-! ## Values -/

/-- A line break and the indentation that follows it, two spaces for each level. -/
def newline (depth : Nat) : String :=
  "\n" ++ String.ofList (List.replicate (2 * depth) ' ')

/-- Items between brackets, each on lines of its own; nothing but the brackets if there are
none. -/
def bracket (opening closing : String) (depth : Nat) (items : List String) : String :=
  match items with
  | [] => opening ++ closing
  | items =>
    opening ++ newline (depth + 1) ++ String.intercalate ("," ++ newline (depth + 1)) items
      ++ newline depth ++ closing

mutual

/-- The text of a value that begins on a line with the given indentation. -/
def prettyAt (depth : Nat) : Json → String
  | null => "null"
  | number text => text
  | string s => quote s
  | array items => bracket "[" "]" depth (prettyItems (depth + 1) items)
  | object fields => bracket "\x7b" "\x7d" depth (prettyFields (depth + 1) fields)

/-- The texts of the items of an array. -/
def prettyItems (depth : Nat) : List Json → List String
  | [] => []
  | item :: items => prettyAt depth item :: prettyItems depth items

/-- The texts of the fields of an object. -/
def prettyFields (depth : Nat) : List (String × Json) → List String
  | [] => []
  | (name, value) :: fields => (quote name ++ ": " ++ prettyAt depth value) :: prettyFields depth fields

end

/-- The text of a value, spread over lines. -/
def pretty : Json → String :=
  prettyAt 0

end Json

end Lox
