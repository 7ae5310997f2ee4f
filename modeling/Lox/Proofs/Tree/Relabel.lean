import Lox.Tree

/-!
# Trees up to identities and lines

Neither the identities of accesses nor the lines of tokens belong to what a program says.
`relabel` changes both throughout a tree and leaves all else as it is, so that two trees say the
same if they are equal once relabelled.

A relabelling is given by two functions, of identities and of lines, so that all uses are instances
of one definition: with the identity on lines it renumbers accesses, with the identity on accesses
it moves a program to other lines, and with constants it forgets the one or the other.  What a
relabelling twice comes to, and that it does nothing if both functions do nothing, is then said
once.

* `Expr.relabel`, `Stmt.relabel` — a tree with other identities and lines.
* `Expr.relabel_relabel`, `Stmt.relabel_relabel` — a tree that is relabelled twice.
* `Expr.anonymous`, `Stmt.anonymous` — a tree without identities.
-/

namespace Lox

/-- A token on another line. -/
def Token.mapLine (lines : Nat → Nat) (t : Token) : Token :=
  { t with line := lines t.line }

namespace Token

@[simp] theorem kind_mapLine (f : Nat → Nat) (t : Token) : (t.mapLine f).kind = t.kind := rfl

@[simp] theorem lexeme_mapLine (f : Nat → Nat) (t : Token) : (t.mapLine f).lexeme = t.lexeme := rfl

@[simp] theorem line_mapLine (f : Nat → Nat) (t : Token) : (t.mapLine f).line = f t.line := rfl

@[simp] theorem mapLine_id (t : Token) : t.mapLine id = t := rfl

/-- A token on the lines that it is on is the token itself. -/
theorem eq_of_mapLine_id {t u : Token} (same : t.mapLine id = u) : t = u :=
  (mapLine_id t).symm.trans same

end Token

section
variable (ids : NodeId → NodeId) (lines : Nat → Nat)

mutual

/-- An expression with other identities and lines. -/
def Expr.relabel : Expr → Expr
  | .literal value => .literal value
  | .group inner => .group inner.relabel
  | .unary operator operand => .unary (operator.mapLine lines) operand.relabel
  | .binary left operator right =>
    .binary left.relabel (operator.mapLine lines) right.relabel
  | .logical left operator right =>
    .logical left.relabel (operator.mapLine lines) right.relabel
  | .read id name => .read (ids id) (name.mapLine lines)
  | .assign id name value => .assign (ids id) (name.mapLine lines) value.relabel
  | .call callee paren arguments =>
    .call callee.relabel (paren.mapLine lines) (Expr.relabelAll arguments)
  | .get object name => .get object.relabel (name.mapLine lines)
  | .set object name value => .set object.relabel (name.mapLine lines) value.relabel

/-- Expressions with other identities and lines. -/
def Expr.relabelAll : List Expr → List Expr
  | [] => []
  | e :: es => e.relabel :: Expr.relabelAll es

end

mutual

/-- A statement with other identities and lines. -/
def Stmt.relabel : Stmt → Stmt
  | .expression e => .expression (e.relabel ids lines)
  | .print e => .print (e.relabel ids lines)
  | .var name initializer =>
    .var (name.mapLine lines) (initializer.map (Expr.relabel ids lines))
  | .block body => .block (Stmt.relabelAll body)
  | .branch condition yes none => .branch (condition.relabel ids lines) yes.relabel none
  | .branch condition yes (some no) =>
    .branch (condition.relabel ids lines) yes.relabel (some no.relabel)
  | .loop condition body => .loop (condition.relabel ids lines) body.relabel
  | .function name parameters body =>
    .function (name.mapLine lines) (parameters.map (Token.mapLine lines)) (Stmt.relabelAll body)
  | .ret keyword value => .ret (keyword.mapLine lines) (value.map (Expr.relabel ids lines))
  | .cls name => .cls (name.mapLine lines)

/-- Statements with other identities and lines. -/
def Stmt.relabelAll : List Stmt → List Stmt
  | [] => []
  | s :: ss => s.relabel :: Stmt.relabelAll ss

end

/-- A list is relabelled member by member. -/
theorem Expr.relabelAll_eq_map (es : List Expr) :
    Expr.relabelAll ids lines es = es.map (Expr.relabel ids lines) := by
  induction es with
  | nil => rfl
  | cons e es ih => rw [Expr.relabelAll, ih, List.map_cons]

theorem Stmt.relabelAll_eq_map (ss : List Stmt) :
    Stmt.relabelAll ids lines ss = ss.map (Stmt.relabel ids lines) := by
  induction ss with
  | nil => rfl
  | cons s ss ih => rw [Stmt.relabelAll, ih, List.map_cons]

/-- The two forms of an `if` in one. -/
theorem Stmt.relabel_branch (condition : Expr) (yes : Stmt) (no : Option Stmt) :
    (branch condition yes no).relabel ids lines =
      branch (condition.relabel ids lines) (yes.relabel ids lines)
        (no.map (Stmt.relabel ids lines)) := by
  cases no <;> rfl

end

/-! ## Nothing relabelled

With both functions the identity a tree stays as it is. -/

mutual

@[simp]
theorem Expr.relabel_id : ∀ e : Expr, e.relabel id id = e
  | .literal _ => rfl
  | .group inner => by rw [Expr.relabel, Expr.relabel_id inner]
  | .unary _ operand => by rw [Expr.relabel, Expr.relabel_id operand, Token.mapLine_id]
  | .binary left _ right => by
      rw [Expr.relabel, Expr.relabel_id left, Expr.relabel_id right, Token.mapLine_id]
  | .logical left _ right => by
      rw [Expr.relabel, Expr.relabel_id left, Expr.relabel_id right, Token.mapLine_id]
  | .read _ _ => rfl
  | .assign _ _ value => by rw [Expr.relabel, Expr.relabel_id value, Token.mapLine_id, id]
  | .call callee _ arguments => by
      rw [Expr.relabel, Expr.relabel_id callee, Expr.relabelAll_id arguments, Token.mapLine_id]
  | .get object _ => by rw [Expr.relabel, Expr.relabel_id object, Token.mapLine_id]
  | .set object _ value => by
      rw [Expr.relabel, Expr.relabel_id object, Expr.relabel_id value, Token.mapLine_id]

theorem Expr.relabelAll_id : ∀ es : List Expr, Expr.relabelAll id id es = es
  | [] => rfl
  | e :: es => by rw [Expr.relabelAll, Expr.relabel_id e, Expr.relabelAll_id es]

end

/-- As functions, for lists and optional expressions. -/
theorem Expr.relabel_id_eq : Expr.relabel id id = id :=
  funext Expr.relabel_id

mutual

@[simp]
theorem Stmt.relabel_id : ∀ s : Stmt, s.relabel id id = s
  | .expression _ => by rw [Stmt.relabel, Expr.relabel_id]
  | .print _ => by rw [Stmt.relabel, Expr.relabel_id]
  | .var _ initializer => by
      rw [Stmt.relabel, Expr.relabel_id_eq, Option.map_id, Token.mapLine_id, id]
  | .block body => by rw [Stmt.relabel, Stmt.relabelAll_id body]
  | .branch _ yes none => by rw [Stmt.relabel, Expr.relabel_id, Stmt.relabel_id yes]
  | .branch _ yes (some no) => by
      rw [Stmt.relabel, Expr.relabel_id, Stmt.relabel_id yes, Stmt.relabel_id no]
  | .loop _ body => by rw [Stmt.relabel, Expr.relabel_id, Stmt.relabel_id body]
  | .function _ parameters body => by
      rw [Stmt.relabel, Stmt.relabelAll_id body, Token.mapLine_id]
      exact congrArg (Stmt.function _ · body) (List.map_id parameters)
  | .ret _ value => by
      rw [Stmt.relabel, Expr.relabel_id_eq, Option.map_id, Token.mapLine_id, id]
  | .cls _ => rfl

theorem Stmt.relabelAll_id : ∀ ss : List Stmt, Stmt.relabelAll id id ss = ss
  | [] => rfl
  | s :: ss => by rw [Stmt.relabelAll, Stmt.relabel_id s, Stmt.relabelAll_id ss]

end

/-- Statements relabelled by the identity are left alone, when the list is mapped over. -/
theorem Stmt.map_relabel_id (ss : List Stmt) : ss.map (Stmt.relabel id id) = ss := by
  rw [funext Stmt.relabel_id]
  exact List.map_id ss

/-! ## Relabelled twice

Two relabellings are one, by the compositions of their functions. -/

section
variable (ids ids' : NodeId → NodeId) (lines lines' : Nat → Nat)

mutual

/-- An expression relabelled twice. -/
theorem Expr.relabel_relabel : ∀ e : Expr,
    (e.relabel ids lines).relabel ids' lines' = e.relabel (ids' ∘ ids) (lines' ∘ lines)
  | .literal _ | .read _ _ => rfl
  | .group inner => congrArg Expr.group (Expr.relabel_relabel inner)
  | .unary _ operand => congrArg (Expr.unary _) (Expr.relabel_relabel operand)
  | .binary left _ right | .logical left _ right => by
      simp only [Expr.relabel, Expr.relabel_relabel left, Expr.relabel_relabel right]
      rfl
  | .assign _ _ value => congrArg (Expr.assign _ _) (Expr.relabel_relabel value)
  | .call callee _ arguments => by
      simp only [Expr.relabel, Expr.relabel_relabel callee, Expr.relabelAll_relabelAll arguments]
      rfl
  | .get object _ => congrArg (Expr.get · _) (Expr.relabel_relabel object)
  | .set object _ value => by
      simp only [Expr.relabel, Expr.relabel_relabel object, Expr.relabel_relabel value]
      rfl

/-- A list of expressions relabelled twice. -/
theorem Expr.relabelAll_relabelAll : ∀ es : List Expr,
    Expr.relabelAll ids' lines' (Expr.relabelAll ids lines es) =
      Expr.relabelAll (ids' ∘ ids) (lines' ∘ lines) es
  | [] => rfl
  | e :: es => by
      simp only [Expr.relabelAll, Expr.relabel_relabel e, Expr.relabelAll_relabelAll es]

end

/-- As functions, for optional expressions. -/
theorem Expr.relabel_comp : Expr.relabel ids' lines' ∘ Expr.relabel ids lines =
    Expr.relabel (ids' ∘ ids) (lines' ∘ lines) :=
  funext (Expr.relabel_relabel ids ids' lines lines')

mutual

theorem Stmt.relabel_relabel : ∀ s : Stmt,
    (s.relabel ids lines).relabel ids' lines' = s.relabel (ids' ∘ ids) (lines' ∘ lines)
  | .expression e => congrArg Stmt.expression (Expr.relabel_relabel ids ids' lines lines' e)
  | .print e => congrArg Stmt.print (Expr.relabel_relabel ids ids' lines lines' e)
  | .var _ initializer => by
      simp only [Stmt.relabel, Option.map_map, Expr.relabel_comp]
      rfl
  | .block body => congrArg Stmt.block (Stmt.relabelAll_relabelAll body)
  | .branch _ yes none => by
      simp only [Stmt.relabel, Expr.relabel_relabel, Stmt.relabel_relabel yes]
  | .branch _ yes (some no) => by
      simp only [Stmt.relabel, Expr.relabel_relabel, Stmt.relabel_relabel yes,
        Stmt.relabel_relabel no]
  | .loop _ body => by simp only [Stmt.relabel, Expr.relabel_relabel, Stmt.relabel_relabel body]
  | .function _ parameters body => by
      simp only [Stmt.relabel, List.map_map, Stmt.relabelAll_relabelAll body]
      rfl
  | .ret _ value => by
      simp only [Stmt.relabel, Option.map_map, Expr.relabel_comp]
      rfl
  | .cls _ => rfl

/-- A list of statements relabelled twice. -/
theorem Stmt.relabelAll_relabelAll : ∀ ss : List Stmt,
    Stmt.relabelAll ids' lines' (Stmt.relabelAll ids lines ss) =
      Stmt.relabelAll (ids' ∘ ids) (lines' ∘ lines) ss
  | [] => rfl
  | s :: ss => by
      simp only [Stmt.relabelAll, Stmt.relabel_relabel s, Stmt.relabelAll_relabelAll ss]

end

end

/-! ## Without identities

A tree in which all accesses have the identity 0.  Two trees are the same up to identities if they
are equal without them.  There is one equation for each node, so that the simplifier takes
identities away from any tree. -/

/-- An expression without identities. -/
def Expr.anonymous (e : Expr) : Expr :=
  e.relabel (fun _ => 0) id

/-- A statement without identities. -/
def Stmt.anonymous (s : Stmt) : Stmt :=
  s.relabel (fun _ => 0) id

namespace Expr

@[simp] theorem anonymous_literal (value : Literal) :
    (literal value).anonymous = literal value := rfl

@[simp] theorem anonymous_group (inner : Expr) :
    (group inner).anonymous = group inner.anonymous := rfl

@[simp] theorem anonymous_unary (operator : Token) (operand : Expr) :
    (unary operator operand).anonymous = unary operator operand.anonymous := rfl

@[simp] theorem anonymous_binary (left right : Expr) (operator : Token) :
    (binary left operator right).anonymous = binary left.anonymous operator right.anonymous := rfl

@[simp] theorem anonymous_logical (left right : Expr) (operator : Token) :
    (logical left operator right).anonymous =
      logical left.anonymous operator right.anonymous := rfl

@[simp] theorem anonymous_read (id : NodeId) (name : Token) :
    (read id name).anonymous = read 0 name := rfl

@[simp] theorem anonymous_assign (id : NodeId) (name : Token) (value : Expr) :
    (assign id name value).anonymous = assign 0 name value.anonymous := rfl

@[simp] theorem anonymous_call (callee : Expr) (paren : Token) (arguments : List Expr) :
    (call callee paren arguments).anonymous =
      call callee.anonymous paren (arguments.map anonymous) := by
  simp only [anonymous, relabel, relabelAll_eq_map, Token.mapLine_id]
  rfl

@[simp] theorem anonymous_get (object : Expr) (name : Token) :
    (get object name).anonymous = get object.anonymous name := rfl

@[simp] theorem anonymous_set (object value : Expr) (name : Token) :
    (set object name value).anonymous = set object.anonymous name value.anonymous := rfl

end Expr

namespace Stmt

@[simp] theorem anonymous_expression (e : Expr) :
    (expression e).anonymous = expression e.anonymous := rfl

@[simp] theorem anonymous_print (e : Expr) : (print e).anonymous = print e.anonymous := rfl

@[simp] theorem anonymous_var (name : Token) (initializer : Option Expr) :
    (var name initializer).anonymous = var name (initializer.map Expr.anonymous) := rfl

@[simp] theorem anonymous_block (body : List Stmt) :
    (block body).anonymous = block (body.map anonymous) := by
  simp only [anonymous, relabel, relabelAll_eq_map]
  rfl

@[simp] theorem anonymous_branch (condition : Expr) (yes : Stmt) (no : Option Stmt) :
    (branch condition yes no).anonymous =
      branch condition.anonymous yes.anonymous (no.map anonymous) :=
  relabel_branch _ _ condition yes no

@[simp] theorem anonymous_loop (condition : Expr) (body : Stmt) :
    (loop condition body).anonymous = loop condition.anonymous body.anonymous := rfl

@[simp] theorem anonymous_function (name : Token) (parameters : List Token) (body : List Stmt) :
    (function name parameters body).anonymous = function name parameters (body.map anonymous) := by
  simp only [anonymous, relabel, relabelAll_eq_map, Token.mapLine_id]
  congr 1
  exact List.map_id parameters

@[simp] theorem anonymous_ret (keyword : Token) (value : Option Expr) :
    (ret keyword value).anonymous = ret keyword (value.map Expr.anonymous) := rfl

@[simp] theorem anonymous_cls (name : Token) : (cls name).anonymous = cls name := rfl

end Stmt

end Lox
