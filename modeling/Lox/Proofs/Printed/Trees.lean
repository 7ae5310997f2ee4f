import Lox.Tree.Printed
import Lox.Proofs.Printed.Brackets

/-!
# Printed trees as lists in parentheses

What is printed for a tree is a form: the operator or the name of the node stands first in a list,
and the forms of its parts follow.  Only a function has a label, its name before its parameters.

The forms stand between a tree and its text.  A text is only a list of characters, which is awkward
to take apart; a form has the words and the parentheses in it as data, and later modules read trees
off forms.

* `Expr.form`, `Stmt.form` — the forms of trees.
* `Expr.text_eq`, `Stmt.text_eq` — what is printed for a tree is its form.
-/

namespace Lox

/-- A list with the given head. -/
def Form.node (head : String) (items : List Form) : Form :=
  .list [] (.word head.toList :: items)

/-- The form of a name. -/
def Token.form (t : Token) : Form :=
  .word t.lexeme.toList

/-! ## Forms of trees

One case for each kind of node, as it is printed. -/

mutual

/-- The form of an expression. -/
def Expr.form : Expr → Form
  | .literal value => .word value.text.toList
  | .group inner => .node "group" [inner.form]
  | .unary operator operand => .node operator.lexeme [operand.form]
  | .binary left operator right | .logical left operator right =>
    .node operator.lexeme [left.form, right.form]
  | .read _ name => name.form
  | .assign _ name value => .node "=" [name.form, value.form]
  | .call callee _ arguments => .node "call" (callee.form :: Expr.forms arguments)
  | .get object name => .node "." [object.form, name.form]
  | .set object name value => .node "=" [.node "." [object.form, name.form], value.form]

/-- The forms of expressions. -/
def Expr.forms : List Expr → List Form
  | [] => []
  | e :: es => e.form :: Expr.forms es

end

mutual

/-- The form of a statement. -/
def Stmt.form : Stmt → Form
  | .expression e => .node ";" [e.form]
  | .print e => .node "print" [e.form]
  | .var name initializer => .node "var" (name.form :: initializer.toList.map Expr.form)
  | .block body => .node "block" (Stmt.forms body)
  | .branch condition yes none => .node "if" [condition.form, yes.form]
  | .branch condition yes (some no) => .node "if" [condition.form, yes.form, no.form]
  | .loop condition body => .node "while" [condition.form, body.form]
  | .function name parameters body =>
    .node "fun" (.list name.lexeme.toList (parameters.map Token.form) :: Stmt.forms body)
  | .ret _ value => .node "return" (value.toList.map Expr.form)
  | .cls name => .node "class" [name.form]

/-- The forms of statements. -/
def Stmt.forms : List Stmt → List Form
  | [] => []
  | s :: ss => s.form :: Stmt.forms ss

end

/-! ## What is printed

The printer joins texts with spaces; the text of a form is defined by recursion, character by
character.  That they are the same is shown once for lists, and then along the trees. -/

/-- The members of a list are written with a space before each. -/
theorem Form.others_eq (fs : List Form) : others fs = fs.flatMap fun f => ' ' :: f.text := by
  induction fs with
  | nil => rfl
  | cons f fs ih => rw [others, ih, List.flatMap_cons, List.cons_append]

/-- Forms with a space between them. -/
theorem Form.inside_eq (fs : List Form) : inside fs = [' '].intercalate (fs.map text) := by
  induction fs with
  | nil => rfl
  | cons f fs ih =>
      cases fs with
      | nil => simp [inside, others, List.intercalate]
      | cons f' fs =>
          have others : others (f' :: fs) = ' ' :: inside (f' :: fs) := rfl
          rw [inside, others, ih]
          simp [List.intercalate]

/-- Items with a space before each. -/
theorem toList_join_spaced {items : List String} {fs : List Form}
    (h : items.map String.toList = fs.map Form.text) :
    (String.join (items.map (" " ++ ·))).toList = Form.others fs := by
  have spaced : (items.flatMap fun item => (" " ++ item).toList) =
      (items.map String.toList).flatMap (' ' :: ·) := by
    rw [List.flatMap_map]
    exact congrArg (List.flatMap · items) (funext fun _ => String.toList_append)
  rw [Form.others_eq, String.toList_join, List.flatMap_map, spaced, h, List.flatMap_map]

/-- A list that is printed with a head. -/
theorem toList_listText (head : String) {items : List String} {fs : List Form}
    (h : items.map String.toList = fs.map Form.text) :
    (listText head items).toList = (Form.node head fs).text := by
  simp only [listText, String.toList_append, toList_join_spaced h, Form.node, Form.text,
    Form.inside, List.nil_append]
  simp

mutual

/-- **What is printed for an expression is its form.** -/
theorem Expr.text_eq : ∀ e : Expr, e.text.toList = e.form.text
  | .literal _ => by rw [text, form, Form.text]
  | .group inner => toList_listText _ (by simp [inner.text_eq])
  | .unary _ operand => toList_listText _ (by simp [operand.text_eq])
  | .binary left _ right => toList_listText _ (by simp [left.text_eq, right.text_eq])
  | .logical left _ right => toList_listText _ (by simp [left.text_eq, right.text_eq])
  | .read _ _ => by rw [text, form, Token.form, Form.text]
  | .assign _ _ value => toList_listText _ (by simp [value.text_eq, Token.form, Form.text])
  | .call callee _ arguments =>
      toList_listText _ (by simp [callee.text_eq, Expr.texts_eq arguments])
  | .get object _ => toList_listText _ (by simp [object.text_eq, Token.form, Form.text])
  | .set object name value => by
      have target : (listText "." [object.text, name.lexeme]).toList =
          (Form.node "." [object.form, name.form]).text :=
        toList_listText _ (by simp [object.text_eq, Token.form, Form.text])
      exact toList_listText _ (by simp [value.text_eq, target])

theorem Expr.texts_eq : ∀ es : List Expr, (Expr.texts es).map String.toList =
    (Expr.forms es).map Form.text
  | [] => rfl
  | e :: es => by simp only [texts, forms, List.map_cons, e.text_eq, Expr.texts_eq es]

end

theorem Expr.text_initializer (e : Option Expr) : (e.toList.map Expr.text).map String.toList =
    (e.toList.map Expr.form).map Form.text := by
  rw [List.map_map, List.map_map]
  exact List.map_congr_left fun e _ => e.text_eq

/-- A function that is printed: its parameters are a list with its name as a label. -/
theorem toList_functionHead (name : Token) (parameters : List Token) :
    (functionHead name parameters).toList =
      "fun ".toList ++ (Form.list name.lexeme.toList (parameters.map Token.form)).text := by
  have inside : Form.inside (parameters.map Token.form) =
      [' '].intercalate ((parameters.map Token.lexeme).map String.toList) := by
    rw [Form.inside_eq, List.map_map, List.map_map]
    rfl
  simp only [functionHead, String.toList_append, String.toList_intercalate, Form.text, inside]
  simp

mutual

/-- **What is printed for a statement is its form.** -/
theorem Stmt.text_eq : ∀ s : Stmt, s.text.toList = s.form.text
  | .expression e => toList_listText _ (by simp [e.text_eq])
  | .print e => toList_listText _ (by simp [e.text_eq])
  | .var _ initializer => toList_listText _ (by
      rw [List.map_cons, List.map_cons, Expr.text_initializer, Token.form, Form.text])
  | .block body => toList_listText _ (Stmt.texts_eq body)
  | .branch condition yes none => toList_listText _ (by simp [condition.text_eq, yes.text_eq])
  | .branch condition yes (some no) =>
      toList_listText _ (by simp [condition.text_eq, yes.text_eq, no.text_eq])
  | .loop condition body => toList_listText _ (by simp [condition.text_eq, body.text_eq])
  | .function name parameters body => by
      rw [text, toList_listText _ (Stmt.texts_eq body), form]
      simp only [Form.node, Form.text, Form.inside, Form.others, toList_functionHead]
      simp
  | .ret _ value => toList_listText _ (Expr.text_initializer value)
  | .cls _ => toList_listText _ (by simp [Token.form, Form.text])

/-- The statements of a list are printed as their forms. -/
theorem Stmt.texts_eq : ∀ ss : List Stmt, (Stmt.texts ss).map String.toList =
    (Stmt.forms ss).map Form.text
  | [] => rfl
  | s :: ss => by simp only [texts, forms, List.map_cons, s.text_eq, Stmt.texts_eq ss]

end

end Lox
