import Lox.Parse
import Lox.Proofs.Tree.Forms
import Lox.Proofs.Tree.Relabel

/-!
# Derivations of programs

The grammar as a relation between tokens and trees, without a cursor and without lookahead.  None of
it is defined by the rules of the parser: the levels of operators, the constants, the limit of 255
and the blocks and the `while` loop that stand for a `for` loop are all written out here, and that
the parser has the same is proved.

```text
declarations → declaration*
declaration  → "class" IDENTIFIER "{" "}"
             | "fun" IDENTIFIER "(" parameters? ")" "{" declarations "}"
             | "var" binding
             | statement
binding      → IDENTIFIER ( "=" expression )? ";"
parameters   → IDENTIFIER ( "," IDENTIFIER )*
statement    → expression ";"
             | "print" expression ";"
             | "return" expression? ";"
             | "if" "(" expression ")" statement ( "else" statement )?
             | "while" "(" expression ")" statement
             | "for" "(" initializer expression? ";" expression? ")" statement
             | "{" declarations "}"
initializer  → "var" binding | expression ";" | ";"
expression   → ( call "." )? IDENTIFIER "=" expression | operation
operation    → operation of the loosest level, down to unary
unary        → ( "!" | "-" ) unary | call
call         → primary ( "(" arguments? ")" | "." IDENTIFIER )*
arguments    → expression ( "," expression )*
primary      → NUMBER | STRING | "true" | "false" | "nil" | IDENTIFIER | "(" expression ")"
```

There are at most 255 parameters and arguments.  Operators of one level associate to the left.
Identities of accesses are left open: a derivation may give them any.  A `for` loop has no node of
its own; with an initializer and an increment it is

```text
{ initializer while (condition) { body increment; } }
```

and a clause that is missing is left out of that, except that a missing condition is `true`.

With `else` after either of two `if`s the grammar is ambiguous; a derivation is of the *nearest*
kind if no statement before an `else` ends in an `if` that has none.  `opened` in a nonterminal
keeps track of that, and has no other purpose.

* `Level`, `levels` — the operators between operands, from the loosest level to the tightest.
* `asWhile` — the blocks and the `while` loop that stand for a `for` loop.
* `Nonterminal`, `Derives` — the grammar.
* `Derives.begins` — what the first token of a text can be.
-/

namespace Lox.Grammar

/-- Operators of one level, and the node they build. -/
structure Level where
  kinds : List Kind
  node : Expr → Token → Expr → Expr

/-- The levels of operators between operands, the loosest first. -/
def levels : List Level :=
  [⟨[.keyword .or], .logical⟩,
    ⟨[.keyword .and], .logical⟩,
    ⟨[.symbol .bangEqual, .symbol .equalEqual], .binary⟩,
    ⟨[.symbol .greater, .symbol .greaterEqual, .symbol .less, .symbol .lessEqual], .binary⟩,
    ⟨[.symbol .minus, .symbol .plus], .binary⟩,
    ⟨[.symbol .slash, .symbol .star], .binary⟩]

/-- The condition of a loop; one that is missing is `true`. -/
def test : Option Expr → Expr
  | some condition => condition
  | none => .literal (.bool true)

/-- **A `for` loop as blocks and a `while` loop**: the initializer stands before the loop in a block
around both, the increment after the body in a block of their own. -/
def asWhile : Option Stmt → Option Expr → Option Expr → Stmt → Stmt
  | none, condition, none, body => .loop (test condition) body
  | none, condition, some increment, body =>
    .loop (test condition) (.block [body, .expression increment])
  | some initializer, condition, none, body =>
    .block [initializer, .loop (test condition) body]
  | some initializer, condition, some increment, body =>
    .block [initializer, .loop (test condition) (.block [body, .expression increment])]

/-- The parser makes the same of a `for` loop. -/
theorem forLoop_eq_asWhile (initializer : Option Stmt) (condition increment : Option Expr)
    (body : Stmt) :
    Parse.forLoop initializer condition increment body =
      asWhile initializer condition increment body := by
  cases initializer <;> cases condition <;> cases increment <;> rfl

/-- What tokens can form. -/
inductive Nonterminal where
  | expression
  /-- Operands with operators of the given levels between them. -/
  | operation (levels : List Level)
  | unary
  | call
  /-- One or more expressions with commas between them. -/
  | items
  /-- No expressions, or one or more. -/
  | arguments
  | primary
  /-- No expression, or one. -/
  | optional
  | declarations
  | declaration
  /-- What follows `var`. -/
  | binding
  /-- The first clause of a `for` loop, its semicolon included. -/
  | initializer
  /-- One or more names with commas between them. -/
  | names
  /-- No names, or one or more. -/
  | parameters
  /-- A statement; `opened` if it ends in an `if` without `else`. -/
  | statement (opened : Bool)

/-- What the tokens of a nonterminal are a text of. -/
@[reducible]
def Nonterminal.Tree : Nonterminal → Type
  | expression | operation _ | unary | call | primary => Expr
  | items | arguments => List Expr
  | optional => Option Expr
  | declarations => List Stmt
  | declaration | binding | statement _ => Stmt
  | initializer => Option Stmt
  | names | parameters => List Token

/-- **The grammar.**  If `nearest` is set, an `else` belongs to the nearest `if`. -/
inductive Derives (nearest : Bool) : (n : Nonterminal) → List Token → n.Tree → Prop
  -- Expressions
  | assign {name equal : Token} {ts : List Token} {id : NodeId} {value : Expr} :
      name.kind = .identifier → equal.kind = .symbol .equal →
      Derives nearest .expression ts value →
      Derives nearest .expression (name :: equal :: ts) (.assign id name value)
  | set {dot name equal : Token} {ts us : List Token} {object value : Expr} :
      Derives nearest .call ts object →
      dot.kind = .symbol .dot → name.kind = .identifier → equal.kind = .symbol .equal →
      Derives nearest .expression us value →
      Derives nearest .expression (ts ++ dot :: name :: equal :: us) (.set object name value)
  | operation {ts : List Token} {e : Expr} :
      Derives nearest (.operation levels) ts e → Derives nearest .expression ts e
  | operand {l : Level} {ls : List Level} {ts : List Token} {e : Expr} :
      Derives nearest (.operation ls) ts e → Derives nearest (.operation (l :: ls)) ts e
  | infixed {l : Level} {ls : List Level} {operator : Token} {ts us : List Token}
      {left right : Expr} :
      Derives nearest (.operation (l :: ls)) ts left → operator.kind ∈ l.kinds →
      Derives nearest (.operation ls) us right →
      Derives nearest (.operation (l :: ls)) (ts ++ operator :: us) (l.node left operator right)
  | tightest {ts : List Token} {e : Expr} :
      Derives nearest .unary ts e → Derives nearest (.operation []) ts e
  | unary {operator : Token} {ts : List Token} {operand : Expr} :
      operator.kind ∈ [Kind.symbol .bang, Kind.symbol .minus] →
      Derives nearest .unary ts operand →
      Derives nearest .unary (operator :: ts) (.unary operator operand)
  | suffixed {ts : List Token} {e : Expr} :
      Derives nearest .call ts e → Derives nearest .unary ts e
  | primary {ts : List Token} {e : Expr} :
      Derives nearest .primary ts e → Derives nearest .call ts e
  | call {lparen rparen : Token} {ts us : List Token} {callee : Expr} {arguments : List Expr} :
      Derives nearest .call ts callee → lparen.kind = .symbol .leftParen →
      Derives nearest .arguments us arguments → arguments.length ≤ 255 →
      rparen.kind = .symbol .rightParen →
      Derives nearest .call (ts ++ lparen :: us ++ [rparen]) (.call callee rparen arguments)
  | get {dot name : Token} {ts : List Token} {object : Expr} :
      Derives nearest .call ts object → dot.kind = .symbol .dot → name.kind = .identifier →
      Derives nearest .call (ts ++ [dot, name]) (.get object name)
  | noArguments : Derives nearest .arguments [] []
  | someArguments {ts : List Token} {es : List Expr} :
      Derives nearest .items ts es → Derives nearest .arguments ts es
  | lastItem {ts : List Token} {e : Expr} :
      Derives nearest .expression ts e → Derives nearest .items ts [e]
  | nextItem {comma : Token} {ts us : List Token} {e : Expr} {es : List Expr} :
      Derives nearest .expression ts e → comma.kind = .symbol .comma →
      Derives nearest .items us es → Derives nearest .items (ts ++ comma :: us) (e :: es)
  | literal {t : Token} {value : Literal} :
      t.IsConstant value → Derives nearest .primary [t] (.literal value)
  | read {name : Token} {id : NodeId} :
      name.kind = .identifier → Derives nearest .primary [name] (.read id name)
  | group {lparen rparen : Token} {ts : List Token} {inner : Expr} :
      lparen.kind = .symbol .leftParen → Derives nearest .expression ts inner →
      rparen.kind = .symbol .rightParen →
      Derives nearest .primary (lparen :: ts ++ [rparen]) (.group inner)
  | absent : Derives nearest .optional [] none
  | present {ts : List Token} {e : Expr} :
      Derives nearest .expression ts e → Derives nearest .optional ts (some e)
  -- Declarations
  | done : Derives nearest .declarations [] []
  | next {ts us : List Token} {s : Stmt} {ss : List Stmt} :
      Derives nearest .declaration ts s → Derives nearest .declarations us ss →
      Derives nearest .declarations (ts ++ us) (s :: ss)
  | cls {keyword name lbrace rbrace : Token} :
      keyword.kind = .keyword .class_ → name.kind = .identifier →
      lbrace.kind = .symbol .leftBrace → rbrace.kind = .symbol .rightBrace →
      Derives nearest .declaration [keyword, name, lbrace, rbrace] (.cls name)
  | function {keyword name lparen rparen lbrace rbrace : Token} {ts us : List Token}
      {parameters : List Token} {body : List Stmt} :
      keyword.kind = .keyword .fun_ → name.kind = .identifier →
      lparen.kind = .symbol .leftParen → Derives nearest .parameters ts parameters →
      parameters.length ≤ 255 → rparen.kind = .symbol .rightParen →
      lbrace.kind = .symbol .leftBrace → Derives nearest .declarations us body →
      rbrace.kind = .symbol .rightBrace →
      Derives nearest .declaration
        (keyword :: name :: lparen :: ts ++ rparen :: lbrace :: us ++ [rbrace])
        (.function name parameters body)
  | var {keyword : Token} {ts : List Token} {s : Stmt} :
      keyword.kind = .keyword .var → Derives nearest .binding ts s →
      Derives nearest .declaration (keyword :: ts) s
  | statement {opened : Bool} {ts : List Token} {s : Stmt} :
      Derives nearest (.statement opened) ts s → Derives nearest .declaration ts s
  | uninitialized {name semicolon : Token} :
      name.kind = .identifier → semicolon.kind = .symbol .semicolon →
      Derives nearest .binding [name, semicolon] (.var name none)
  | initialized {name equal semicolon : Token} {ts : List Token} {e : Expr} :
      name.kind = .identifier → equal.kind = .symbol .equal →
      Derives nearest .expression ts e → semicolon.kind = .symbol .semicolon →
      Derives nearest .binding (name :: equal :: ts ++ [semicolon]) (.var name (some e))
  | noParameters : Derives nearest .parameters [] []
  | someParameters {ts names : List Token} :
      Derives nearest .names ts names → Derives nearest .parameters ts names
  | lastName {name : Token} : name.kind = .identifier → Derives nearest .names [name] [name]
  | nextName {name comma : Token} {ts names : List Token} :
      name.kind = .identifier → comma.kind = .symbol .comma → Derives nearest .names ts names →
      Derives nearest .names (name :: comma :: ts) (name :: names)
  -- Statements
  | expression {semicolon : Token} {ts : List Token} {e : Expr} :
      Derives nearest .expression ts e → semicolon.kind = .symbol .semicolon →
      Derives nearest (.statement false) (ts ++ [semicolon]) (.expression e)
  | print {keyword semicolon : Token} {ts : List Token} {e : Expr} :
      keyword.kind = .keyword .print → Derives nearest .expression ts e →
      semicolon.kind = .symbol .semicolon →
      Derives nearest (.statement false) (keyword :: ts ++ [semicolon]) (.print e)
  | ret {keyword semicolon : Token} {ts : List Token} {value : Option Expr} :
      keyword.kind = .keyword .return_ → Derives nearest .optional ts value →
      semicolon.kind = .symbol .semicolon →
      Derives nearest (.statement false) (keyword :: ts ++ [semicolon]) (.ret keyword value)
  | ifOnly {keyword lparen rparen : Token} {ts us : List Token} {condition : Expr} {yes : Stmt}
      {opened : Bool} :
      keyword.kind = .keyword .if_ → lparen.kind = .symbol .leftParen →
      Derives nearest .expression ts condition → rparen.kind = .symbol .rightParen →
      Derives nearest (.statement opened) us yes →
      Derives nearest (.statement true) (keyword :: lparen :: ts ++ rparen :: us)
        (.branch condition yes none)
  | ifElse {keyword lparen rparen otherwise : Token} {ts us vs : List Token} {condition : Expr}
      {yes no : Stmt} {opened opened' : Bool} :
      keyword.kind = .keyword .if_ → lparen.kind = .symbol .leftParen →
      Derives nearest .expression ts condition → rparen.kind = .symbol .rightParen →
      Derives nearest (.statement opened) us yes → (nearest = true → opened = false) →
      otherwise.kind = .keyword .else_ → Derives nearest (.statement opened') vs no →
      Derives nearest (.statement opened')
        (keyword :: lparen :: ts ++ rparen :: us ++ otherwise :: vs)
        (.branch condition yes (some no))
  | loop {keyword lparen rparen : Token} {ts us : List Token} {condition : Expr} {body : Stmt}
      {opened : Bool} :
      keyword.kind = .keyword .while_ → lparen.kind = .symbol .leftParen →
      Derives nearest .expression ts condition → rparen.kind = .symbol .rightParen →
      Derives nearest (.statement opened) us body →
      Derives nearest (.statement opened) (keyword :: lparen :: ts ++ rparen :: us)
        (.loop condition body)
  | forLoop {keyword lparen semicolon rparen : Token} {ts us vs ws : List Token}
      {initializer : Option Stmt} {condition increment : Option Expr} {body : Stmt}
      {opened : Bool} :
      keyword.kind = .keyword .for_ → lparen.kind = .symbol .leftParen →
      Derives nearest .initializer ts initializer → Derives nearest .optional us condition →
      semicolon.kind = .symbol .semicolon → Derives nearest .optional vs increment →
      rparen.kind = .symbol .rightParen → Derives nearest (.statement opened) ws body →
      Derives nearest (.statement opened)
        (keyword :: lparen :: ts ++ us ++ semicolon :: vs ++ rparen :: ws)
        (asWhile initializer condition increment body)
  | noInitializer {semicolon : Token} :
      semicolon.kind = .symbol .semicolon → Derives nearest .initializer [semicolon] none
  | varInitializer {keyword : Token} {ts : List Token} {s : Stmt} :
      keyword.kind = .keyword .var → Derives nearest .binding ts s →
      Derives nearest .initializer (keyword :: ts) (some s)
  | expressionInitializer {semicolon : Token} {ts : List Token} {e : Expr} :
      Derives nearest .expression ts e → semicolon.kind = .symbol .semicolon →
      Derives nearest .initializer (ts ++ [semicolon]) (some (.expression e))
  | block {lbrace rbrace : Token} {ts : List Token} {body : List Stmt} :
      lbrace.kind = .symbol .leftBrace → Derives nearest .declarations ts body →
      rbrace.kind = .symbol .rightBrace →
      Derives nearest (.statement false) (lbrace :: ts ++ [rbrace]) (.block body)

/-- Whether the levels of an operation are the tightest ones of the grammar. -/
def Nonterminal.Proper : Nonterminal → Prop
  | operation ls => ls <:+ levels
  | _ => True

/-- A tree without identities. -/
def Nonterminal.anonymous : (n : Nonterminal) → n.Tree → n.Tree
  | expression | operation _ | unary | call | primary => Expr.anonymous
  | items | arguments => List.map Expr.anonymous
  | optional => Option.map Expr.anonymous
  | declarations => List.map Stmt.anonymous
  | declaration | binding | statement _ => Stmt.anonymous
  | initializer => Option.map Stmt.anonymous
  | names | parameters => id

/-- Without the choice of the nearest `if` all the more can be derived. -/
theorem Derives.loosen {nearest : Bool} {n : Nonterminal} {ts : List Token} {x : n.Tree}
    (h : Derives nearest n ts x) : Derives false n ts x := by
  induction h with
  | infixed _ hk _ ihl ihr => exact .infixed ihl hk ihr
  | call _ hl _ hlen hr ihc iha => exact .call ihc hl iha hlen hr
  | get _ hd hn ih => exact .get ih hd hn
  | ifElse hk hl _ hr _ _ ho _ ihc ihy ihn =>
      exact .ifElse hk hl ihc hr ihy (fun h => absurd h Bool.false_ne_true) ho ihn
  | _ =>
      constructor
      all_goals assumption

/-! ## First tokens -/

/-- Whether every text of a nonterminal has a token. -/
def Nonterminal.isFilled : Nonterminal → Bool
  | arguments | optional | declarations | parameters => false
  | _ => true

/-- Only what may be missing altogether derives from no tokens. -/
theorem Derives.ne_nil {nearest : Bool} {n : Nonterminal} {ts : List Token} {x : n.Tree}
    (h : Derives nearest n ts x) : n.isFilled = true → ts ≠ [] := by
  induction h <;> simp_all [Nonterminal.isFilled]

/-- The kinds an expression begins with if no operator stands before it. -/
def beginsCall : Kind → Bool
  | .identifier | .string | .number | .symbol .leftParen | .keyword .true | .keyword .false
  | .keyword .nil => true
  | _ => false

/-- The kinds an expression begins with. -/
def beginsExpression (kind : Kind) : Bool :=
  beginsCall kind || kind == .symbol .bang || kind == .symbol .minus

/-- The kinds a statement begins with. -/
def beginsStatement (kind : Kind) : Bool :=
  beginsExpression kind || kind == .symbol .leftBrace || kind == .keyword .for_ ||
    kind == .keyword .if_ || kind == .keyword .while_ || kind == .keyword .return_ ||
    kind == .keyword .print

/-- The kinds a declaration begins with. -/
def beginsDeclaration (kind : Kind) : Bool :=
  beginsStatement kind || kind == .keyword .class_ || kind == .keyword .fun_ ||
    kind == .keyword .var

/-- The kinds a text of a nonterminal can begin with. -/
def Nonterminal.begins : Nonterminal → Kind → Bool
  | call | primary => beginsCall
  | expression | operation _ | unary | items | arguments | optional => beginsExpression
  | statement _ => beginsStatement
  | declarations | declaration => beginsDeclaration
  | _ => fun _ => true

/-- A constant is an expression without an operator before it. -/
theorem beginsCall_of_isConstant {t : Token} {value : Literal} (h : t.IsConstant value) :
    beginsCall t.kind = true := by
  cases h <;> rfl

theorem head?_append_of_ne_nil {ts us : List Token} (h : ts ≠ []) :
    (ts ++ us).head? = ts.head? := by
  cases ts with
  | nil => exact absurd rfl h
  | cons t ts => rfl

/-- What a text begins with is decided by its nonterminal. -/
theorem Derives.begins {nearest : Bool} {n : Nonterminal} {ts : List Token} {x : n.Tree}
    (h : Derives nearest n ts x) : ∀ t ∈ ts.head?, n.begins t.kind = true := by
  induction h with
  | set ho _ _ _ _ ih =>
      intro t ht
      rw [head?_append_of_ne_nil (ho.ne_nil rfl)] at ht
      simp only [Nonterminal.begins, beginsExpression, Bool.or_eq_true]
      exact .inl (.inl (ih t ht))
  | infixed hl _ _ ih =>
      intro t ht
      rw [head?_append_of_ne_nil (hl.ne_nil rfl)] at ht
      exact ih t ht
  | suffixed _ ih =>
      intro t ht
      simp only [Nonterminal.begins, beginsExpression, Bool.or_eq_true]
      exact .inl (.inl (ih t ht))
  | call hc _ _ _ _ ih =>
      intro t ht
      rw [List.append_assoc, head?_append_of_ne_nil (hc.ne_nil rfl)] at ht
      exact ih t ht
  | get ho _ _ ih =>
      intro t ht
      rw [head?_append_of_ne_nil (ho.ne_nil rfl)] at ht
      exact ih t ht
  | nextItem he _ _ ih =>
      intro t ht
      rw [head?_append_of_ne_nil (he.ne_nil rfl)] at ht
      exact ih t ht
  | next hs _ ih =>
      intro t ht
      rw [head?_append_of_ne_nil (hs.ne_nil rfl)] at ht
      exact ih t ht
  | expression he _ ih =>
      intro t ht
      rw [head?_append_of_ne_nil (he.ne_nil rfl)] at ht
      have begins : beginsExpression t.kind = true := ih t ht
      simp only [Nonterminal.begins, beginsStatement, begins, Bool.true_or]
  | statement _ ih =>
      intro t ht
      have begins : beginsStatement t.kind = true := ih t ht
      simp only [Nonterminal.begins, beginsDeclaration, begins, Bool.true_or]
  | literal hv => simpa [Nonterminal.begins] using beginsCall_of_isConstant hv
  | unary hk =>
      simp only [List.mem_cons, List.not_mem_nil, or_false] at hk
      rcases hk with hk | hk
      all_goals simp [Nonterminal.begins, hk, beginsExpression]
  | expressionInitializer => exact fun _ _ => rfl
  | _ => simp_all [Nonterminal.begins, beginsDeclaration, beginsStatement, beginsExpression,
      beginsCall]

end Lox.Grammar
