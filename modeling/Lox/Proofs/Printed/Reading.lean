import Lox.Proofs.Printed.Words

/-!
# Printed trees read back

A tree can be read off its form: the head of a list and the number of its items say which node it
is of, and the words in it are cut out as the tokens that were printed.  What is lost are the
identities of accesses and the lines of tokens.

A printed tree is not parsed by the grammar of programs; it has one of its own, of words and lists
in parentheses, which is so plain that a list is told apart by its head and its length.  For each
node there is a lemma that its form is read back to it, given that its parts are.  What they need of
a tree is that operators have the kinds of their nodes, since `-` before one operand and `-` between
two are the same word, and that names and constants are printed as words.

* `Expr.bare`, `Stmt.bare` — a tree without identities and lines.
* `Expr.text_relabel`, `Stmt.text_relabel` — neither of them is printed.
* `Expr.ofForm`, `Stmt.ofForm` — the tree that a form is of.
* `Expr.Readable`, `Stmt.Readable` — a tree is read off its form, with a lemma for each node.
-/

namespace Lox

open Parse

/-! ## Identities and lines

Neither is printed, so a tree can only be read back up to both. -/

/-- An expression without identities and lines. -/
def Expr.bare (e : Expr) : Expr :=
  e.relabel (fun _ => 0) fun _ => 0

/-- A statement without identities and lines. -/
def Stmt.bare (s : Stmt) : Stmt :=
  s.relabel (fun _ => 0) fun _ => 0

section
variable (ids : NodeId → NodeId) (lines : Nat → Nat)

mutual

/-- Neither identities nor lines are printed. -/
theorem Expr.text_relabel : ∀ e : Expr, (e.relabel ids lines).text = e.text
  | .literal _ | .read _ _ => rfl
  | .group inner => by rw [relabel, text, text, Expr.text_relabel inner]
  | .unary _ operand => by rw [relabel, text, text, Expr.text_relabel operand, Token.lexeme_mapLine]
  | .binary left _ right | .logical left _ right => by
      rw [relabel, text, text, Expr.text_relabel left, Expr.text_relabel right,
        Token.lexeme_mapLine]
  | .assign _ _ value => by rw [relabel, text, text, Expr.text_relabel value, Token.lexeme_mapLine]
  | .call callee _ arguments => by
      rw [relabel, text, text, Expr.text_relabel callee, Expr.texts_relabelAll arguments]
  | .get object _ => by rw [relabel, text, text, Expr.text_relabel object, Token.lexeme_mapLine]
  | .set object _ value => by
      rw [relabel, text, text, Expr.text_relabel object, Expr.text_relabel value,
        Token.lexeme_mapLine]

/-- Nor are those of the expressions in a list. -/
theorem Expr.texts_relabelAll : ∀ es : List Expr,
    Expr.texts (Expr.relabelAll ids lines es) = Expr.texts es
  | [] => rfl
  | e :: es => by
      rw [relabelAll, texts, texts, Expr.text_relabel e, Expr.texts_relabelAll es]

end

/-- Nor are those of an expression that may be missing. -/
theorem Expr.map_text_relabel (e : Option Expr) :
    (e.map (Expr.relabel ids lines)).toList.map Expr.text = e.toList.map Expr.text := by
  cases e with
  | none => rfl
  | some e => exact congrArg (fun t => [t]) (Expr.text_relabel ids lines e)

mutual

/-- Neither identities nor lines are printed. -/
theorem Stmt.text_relabel : ∀ s : Stmt, (s.relabel ids lines).text = s.text
  | .expression e | .print e => by rw [relabel, text, text, Expr.text_relabel]
  | .var _ initializer => by
      rw [relabel, text, text, Expr.map_text_relabel, Token.lexeme_mapLine]
  | .block body => by rw [relabel, text, text, Stmt.texts_relabelAll body]
  | .branch condition yes none => by
      rw [relabel, text, text, Expr.text_relabel, Stmt.text_relabel yes]
  | .branch condition yes (some no) => by
      rw [relabel, text, text, Expr.text_relabel, Stmt.text_relabel yes, Stmt.text_relabel no]
  | .loop condition body => by rw [relabel, text, text, Expr.text_relabel, Stmt.text_relabel body]
  | .function _ parameters body => by
      have names : (parameters.map (Token.mapLine lines)).map Token.lexeme =
          parameters.map Token.lexeme := List.map_map
      rw [relabel, text, text, Stmt.texts_relabelAll body, functionHead, functionHead, names,
        Token.lexeme_mapLine]
  | .ret _ value => by rw [relabel, text, text, Expr.map_text_relabel]
  | .cls _ => rfl

/-- Nor are those of the statements in a list. -/
theorem Stmt.texts_relabelAll : ∀ ss : List Stmt,
    Stmt.texts (Stmt.relabelAll ids lines ss) = Stmt.texts ss
  | [] => rfl
  | s :: ss => by
      rw [relabelAll, texts, texts, Stmt.text_relabel s, Stmt.texts_relabelAll ss]

end

end

/-! ## Trees of forms

The functions here need not be quick, nor do they have to mean anything on forms that no tree is
printed as. -/

/-- The name that a form is. -/
def Token.ofForm : Form → Token
  | .word w => .ofWord w
  | .list _ _ => default

/-- The expression with a head, given its parts. -/
def Expr.ofParts (head : Token) (parts : List Expr) : Expr :=
  match head.kind, parts with
  | .symbol .equal, [.read _ name, value] => .assign 0 name value
  | .symbol .equal, [.get object name, value] => .set object name value
  | .symbol .dot, [object, .read _ name] => .get object name
  | .symbol _, [operand] => .unary head operand
  | .symbol _, [left, right] => .binary left head right
  | .keyword _, [left, right] => .logical left head right
  | .identifier, first :: others =>
    if head.lexeme = "call" then .call first (.ofWord Symbol.rightParen.spelling) others
    else .group first
  | _, _ => default

mutual

/-- The expression that a form is of. -/
def Expr.ofForm : Form → Expr
  | .word w =>
    match Literal.ofToken? (.ofWord w) with
    | some value => .literal value
    | none => .read 0 (.ofWord w)
  | .list _ (.word head :: items) => .ofParts (.ofWord head) (Expr.ofForms items)
  | .list _ _ => default

/-- The expressions that forms are of. -/
def Expr.ofForms : List Form → List Expr
  | [] => []
  | f :: fs => Expr.ofForm f :: Expr.ofForms fs

end

/-- The statement with a head of the given kind, given its items and the statements that these would
be of. -/
def Stmt.ofParts (head : Kind) (items : List Form) (statements : List Stmt) : Stmt :=
  match head, items, statements with
  | .symbol .semicolon, [e], _ => .expression (.ofForm e)
  | .keyword .print, [e], _ => .print (.ofForm e)
  | .keyword .var, name :: initializer, _ =>
    .var (.ofForm name) (initializer.head?.map Expr.ofForm)
  | .identifier, _, body => .block body
  | .keyword .if_, condition :: _, [_, yes] => .branch (.ofForm condition) yes none
  | .keyword .if_, condition :: _, [_, yes, no] => .branch (.ofForm condition) yes (some no)
  | .keyword .while_, condition :: _, [_, body] => .loop (.ofForm condition) body
  | .keyword .fun_, .list name parameters :: _, _ :: body =>
    .function (.ofWord name) (parameters.map Token.ofForm) body
  | .keyword .return_, value, _ =>
    .ret (.ofWord Keyword.return_.spelling) (value.head?.map Expr.ofForm)
  | .keyword .class_, [name], _ => .cls (.ofForm name)
  | _, _, _ => default

mutual

/-- The statement that a form is of. -/
def Stmt.ofForm : Form → Stmt
  | .list _ (.word head :: items) => .ofParts (Token.ofWord head).kind items (Stmt.ofForms items)
  | _ => default

/-- The statements that forms are of. -/
def Stmt.ofForms : List Form → List Stmt
  | [] => []
  | f :: fs => Stmt.ofForm f :: Stmt.ofForms fs

end

namespace Expr

variable {head : Token} {e e' : Expr}

theorem ofParts_unary (h : head.kind ∈ unaryKinds) : ofParts head [e] = .unary head e := by
  obtain ⟨kind, lexeme, line, payload⟩ := head
  simp only [unaryKinds, List.mem_cons, List.not_mem_nil, or_false] at h
  rcases h with rfl | rfl <;> rfl

theorem ofParts_binary (h : head.kind ∈ binaryKinds) :
    ofParts head [e, e'] = .binary e head e' := by
  obtain ⟨kind, lexeme, line, payload⟩ := head
  simp only [binaryKinds, List.mem_cons, List.not_mem_nil, or_false] at h
  rcases h with rfl | rfl | rfl | rfl | rfl | rfl | rfl | rfl | rfl | rfl <;> rfl

/-- The word `and` or `or` and two items. -/
theorem ofParts_logical (h : head.kind ∈ logicalKinds) :
    ofParts head [e, e'] = .logical e head e' := by
  obtain ⟨kind, lexeme, line, payload⟩ := head
  simp only [logicalKinds, List.mem_cons, List.not_mem_nil, or_false] at h
  rcases h with rfl | rfl <;> rfl

end Expr

/-! ## Parts

Names and other words of a form are plain: they have no parenthesis and no space in them. -/

/-- A word is plain if all of its characters are those of words. -/
theorem Form.plain_word {w : List Char} (ne : w ≠ []) (h : w.all inWord = true) :
    (word w).Plain :=
  ⟨ne, List.all_eq_true.1 h⟩

/-- A list is plain if its head and its items are. -/
theorem Form.plain_node {head : String} {items : List Form} (h : (word head.toList).Plain)
    (hs : AllPlain items) : (node head items).Plain :=
  ⟨fun _ mem => (List.not_mem_nil mem).elim, h, hs⟩

/-- A list of forms is plain if each of them is. -/
theorem Form.allPlain_iff {fs : List Form} : AllPlain fs ↔ ∀ f ∈ fs, f.Plain := by
  induction fs with
  | nil => simp [AllPlain]
  | cons f fs ih => rw [AllPlain, ih, List.forall_mem_cons]

/-- A name that a source can have. -/
structure Token.IsName (t : Token) : Prop where
  spelt : t.Spelt
  kind : t.kind = .identifier

namespace Token.IsName

variable {t : Token}

/-- A name is printed as a plain word. -/
theorem plain (h : t.IsName) : t.form.Plain :=
  h.spelt.plain (h.kind ▸ by decide)

/-- A name is read back off its word. -/
theorem ofForm (h : t.IsName) : Token.ofForm t.form = t.bare :=
  h.spelt.ofWord

/-- A name that stands alone is a variable that is read. -/
theorem read (h : t.IsName) : Expr.ofForm t.form = .read 0 t.bare := by
  have spelt := h.spelt.ofWord
  obtain ⟨kind, lexeme, line, payload⟩ := t
  obtain rfl : kind = .identifier := h.kind
  rw [form, Expr.ofForm, spelt]
  rfl

end Token.IsName

/-! ## Expressions

One lemma for each node. -/

/-- The form of an expression is plain, and the expression is read off it. -/
structure Expr.Readable (e : Expr) : Prop where
  plain : e.form.Plain
  read : Expr.ofForm e.form = e.bare

/-- The forms of expressions are plain, and the expressions are read off them. -/
structure Expr.AllReadable (es : List Expr) : Prop where
  plain : Form.AllPlain (Expr.forms es)
  read : Expr.ofForms (Expr.forms es) = Expr.relabelAll (fun _ => 0) (fun _ => 0) es

namespace Expr

theorem ofForm_node (head : String) (items : List Form) :
    ofForm (.node head items) = ofParts (.ofWord head.toList) (ofForms items) := rfl

namespace AllReadable

/-- No expressions are read off no forms. -/
theorem nil : AllReadable [] :=
  ⟨trivial, rfl⟩

/-- An expression and others after it. -/
theorem cons {e : Expr} {es : List Expr} (h : e.Readable) (hs : AllReadable es) :
    AllReadable (e :: es) :=
  ⟨⟨h.plain, hs.plain⟩, by rw [forms, ofForms, h.read, hs.read]; rfl⟩

end AllReadable

namespace Readable

variable {operator name : Token} {e left right object value : Expr}

/-- A constant is read off its word, if it is printed as one. -/
theorem literal {v : Literal} (h : v.Readable) : (literal v).Readable := by
  obtain ⟨t, spelt, tight, text, denotes⟩ := h
  have word : (Expr.literal v).form = t.form := by rw [form, ← text]; rfl
  have same : Literal.ofToken? t.bare = some v := denotes ▸ Literal.ofToken?_bare t
  constructor
  · rw [word]
    exact spelt.plain tight
  · rw [word, Token.form, ofForm, spelt.ofWord, same]
    rfl

/-- Parentheses are a list with a head of their own. -/
theorem group (h : e.Readable) : (group e).Readable where
  plain := Form.plain_node (Form.plain_word (by decide) rfl) ⟨h.plain, trivial⟩
  read := by
    rw [form, ofForm_node, ofForms, h.read]
    rfl

theorem unary (spelt : operator.Spelt) (kind : operator.kind ∈ unaryKinds) (h : e.Readable) :
    (unary operator e).Readable where
  plain := Form.plain_node (spelt.plain ((by decide : ∀ k ∈ unaryKinds, k ∉ looseKinds) _ kind))
    ⟨h.plain, trivial⟩
  read := by
    rw [form, ofForm_node, spelt.ofWord, ofForms, h.read]
    exact ofParts_unary kind

/-- An operator between two operands. -/
theorem binary (spelt : operator.Spelt) (kind : operator.kind ∈ binaryKinds)
    (hl : left.Readable) (hr : right.Readable) : (binary left operator right).Readable where
  plain := Form.plain_node (spelt.plain ((by decide : ∀ k ∈ binaryKinds, k ∉ looseKinds) _ kind))
    ⟨hl.plain, hr.plain, trivial⟩
  read := by
    rw [form, ofForm_node, spelt.ofWord, ofForms, ofForms, hl.read, hr.read]
    exact ofParts_binary kind

/-- An operator whose left operand may decide. -/
theorem logical (spelt : operator.Spelt) (kind : operator.kind ∈ logicalKinds)
    (hl : left.Readable) (hr : right.Readable) : (logical left operator right).Readable where
  plain := Form.plain_node (spelt.plain ((by decide : ∀ k ∈ logicalKinds, k ∉ looseKinds) _ kind))
    ⟨hl.plain, hr.plain, trivial⟩
  read := by
    rw [form, ofForm_node, spelt.ofWord, ofForms, ofForms, hl.read, hr.read]
    exact ofParts_logical kind

theorem access (id : NodeId) (hname : name.IsName) : (Expr.read id name).Readable :=
  ⟨hname.plain, hname.read⟩

/-- An assignment has a name and a value. -/
theorem assign (id : NodeId) (hname : name.IsName) (h : value.Readable) :
    (assign id name value).Readable where
  plain := Form.plain_node (Form.plain_word (by decide) rfl) ⟨hname.plain, h.plain, trivial⟩
  read := by
    rw [form, ofForm_node, ofForms, ofForms, hname.read, h.read]
    rfl

/-- A call has what is called and then the arguments. -/
theorem call {paren : Token} {arguments : List Expr} (spelt : paren.Spelt)
    (kind : paren.kind = .symbol .rightParen) (h : e.Readable) (hs : AllReadable arguments) :
    (call e paren arguments).Readable where
  plain := Form.plain_node (Form.plain_word (by decide) rfl) ⟨h.plain, hs.plain⟩
  read := by
    rw [form, ofForm_node, ofForms, h.read, hs.read]
    show Expr.call e.bare (.ofWord Symbol.rightParen.spelling) _ = _
    rw [spelt.ofWord_symbol kind]
    rfl

/-- A property has a name and an object. -/
theorem get (hname : name.IsName) (h : object.Readable) : (get object name).Readable where
  plain := Form.plain_node (Form.plain_word (by decide) rfl) ⟨h.plain, hname.plain, trivial⟩
  read := by
    rw [form, ofForm_node, ofForms, ofForms, h.read, hname.read]
    rfl

/-- An assignment to a property has an object, a name and a value. -/
theorem set (hname : name.IsName) (h : object.Readable) (hv : value.Readable) :
    (set object name value).Readable where
  plain := Form.plain_node (Form.plain_word (by decide) rfl)
    ⟨(h.get hname).plain, hv.plain, trivial⟩
  read := by
    have target : ofForm (.node "." [object.form, name.form]) = .get object.bare name.bare :=
      (h.get hname).read
    rw [form, ofForm_node, ofForms, ofForms, target, hv.read]
    rfl

end Readable

end Expr

/-! ## Statements

The same for statements, whose heads are keywords. -/

/-- The form of a statement is plain, and the statement is read off it. -/
structure Stmt.Readable (s : Stmt) : Prop where
  plain : s.form.Plain
  read : Stmt.ofForm s.form = s.bare

/-- The forms of statements are plain, and the statements are read off them. -/
structure Stmt.AllReadable (ss : List Stmt) : Prop where
  plain : Form.AllPlain (Stmt.forms ss)
  read : Stmt.ofForms (Stmt.forms ss) = Stmt.relabelAll (fun _ => 0) (fun _ => 0) ss

namespace Stmt

/-- A list is read by its head, as a statement. -/
theorem ofForm_node (head : String) (items : List Form) :
    ofForm (.node head items) = ofParts (Token.ofWord head.toList).kind items (ofForms items) := rfl

namespace AllReadable

/-- No statements are read off no forms. -/
theorem nil : AllReadable [] :=
  ⟨trivial, rfl⟩

/-- A statement and others after it. -/
theorem cons {s : Stmt} {ss : List Stmt} (h : s.Readable) (hs : AllReadable ss) :
    AllReadable (s :: ss) :=
  ⟨⟨h.plain, hs.plain⟩, by rw [forms, ofForms, h.read, hs.read]; rfl⟩

end AllReadable

namespace Readable

variable {name : Token} {e condition : Expr} {value : Option Expr} {yes no body : Stmt}
  {ss : List Stmt}

theorem expression (h : e.Readable) : (expression e).Readable where
  plain := Form.plain_node (Form.plain_word (by decide) rfl) ⟨h.plain, trivial⟩
  read := congrArg Stmt.expression h.read

theorem print (h : e.Readable) : (print e).Readable where
  plain := Form.plain_node (Form.plain_word (by decide) rfl) ⟨h.plain, trivial⟩
  read := congrArg Stmt.print h.read

/-- An expression that can be missing. -/
theorem optional (h : ∀ e ∈ value, e.Readable) :
    Form.AllPlain (value.toList.map Expr.form) ∧
      (value.toList.map Expr.form).head?.map Expr.ofForm = value.map Expr.bare := by
  cases value with
  | none => exact ⟨trivial, rfl⟩
  | some e => exact ⟨⟨(h e rfl).plain, trivial⟩, congrArg some (h e rfl).read⟩

/-- A variable with or without an initializer. -/
theorem var (hname : name.IsName) (h : ∀ e ∈ value, e.Readable) : (var name value).Readable where
  plain := Form.plain_node (Form.plain_word (by decide) rfl) ⟨hname.plain, (optional h).1⟩
  read := congrArg₂ Stmt.var hname.ofForm (optional h).2

/-- A block is the statements in it. -/
theorem block (hs : AllReadable ss) : (block ss).Readable where
  plain := Form.plain_node (Form.plain_word (by decide) rfl) hs.plain
  read := congrArg Stmt.block hs.read

theorem ifOnly (hc : condition.Readable) (hyes : yes.Readable) :
    (branch condition yes none).Readable where
  plain := Form.plain_node (Form.plain_word (by decide) rfl) ⟨hc.plain, hyes.plain, trivial⟩
  read := congrArg₂ (Stmt.branch · · none) hc.read hyes.read

/-- An `if` with `else` has one item more. -/
theorem ifElse (hc : condition.Readable) (hyes : yes.Readable) (hno : no.Readable) :
    (branch condition yes (some no)).Readable where
  plain := Form.plain_node (Form.plain_word (by decide) rfl)
    ⟨hc.plain, hyes.plain, hno.plain, trivial⟩
  read := by
    rw [form, ofForm_node, ofForms, ofForms, ofForms, hyes.read, hno.read]
    exact congrArg (Stmt.branch · _ _) hc.read

theorem loop (hc : condition.Readable) (h : body.Readable) : (loop condition body).Readable where
  plain := Form.plain_node (Form.plain_word (by decide) rfl) ⟨hc.plain, h.plain, trivial⟩
  read := congrArg₂ Stmt.loop hc.read h.read

/-- A name, the parameters and the body. -/
theorem function {parameters : List Token} (hname : name.IsName)
    (hparameters : ∀ t ∈ parameters, t.IsName) (hs : AllReadable ss) :
    (function name parameters ss).Readable where
  plain := by
    have named : Form.AllPlain (parameters.map Token.form) :=
      Form.allPlain_iff.2 (List.forall_mem_map.2 fun t ht => (hparameters t ht).plain)
    exact Form.plain_node (Form.plain_word (by decide) rfl)
      ⟨⟨hname.plain.2, named⟩, hs.plain⟩
  read := by
    have named : (parameters.map Token.form).map Token.ofForm = parameters.map Token.bare := by
      rw [List.map_map]
      exact List.map_congr_left fun t ht => (hparameters t ht).ofForm
    rw [form, ofForm_node, ofForms, hs.read]
    show Stmt.function (.ofWord name.lexeme.toList)
      ((parameters.map Token.form).map Token.ofForm) _ = _
    rw [named, hname.spelt.ofWord]
    rfl

/-- A `return` with or without a value. -/
theorem ret {keyword : Token} (spelt : keyword.Spelt) (kind : keyword.kind = .keyword .return_)
    (h : ∀ e ∈ value, e.Readable) : (ret keyword value).Readable where
  plain := Form.plain_node (Form.plain_word (by decide) rfl) (optional h).1
  read := congrArg₂ Stmt.ret (spelt.ofWord_keyword kind) (optional h).2

theorem cls (hname : name.IsName) : (cls name).Readable where
  plain := Form.plain_node (Form.plain_word (by decide) rfl) ⟨hname.plain, trivial⟩
  read := congrArg Stmt.cls hname.ofForm

end Readable

end Stmt

end Lox
