import Lox.Proofs.Parse.Correctness

/-!
# Where declarations stand

The grammar has declarations as direct members of a program, a block or a function body, and
nowhere else.  A branch or the body of a loop is never one, so whether it is executed has no effect
on which names are declared.

It is enough to look at the grammar, since a program that is read without a fault is derived by it;
each production puts its declarations where they belong.

* `Stmt.Shaped` — declarations stand where the grammar has them.
* `shaped_of_parse` — every program that is read without a fault is shaped.
-/

namespace Lox

/-- Whether a statement declares a name in the scope it stands in. -/
def Stmt.declares : Stmt → Bool
  | .var _ _ | .function _ _ _ | .cls _ => true
  | _ => false

/-- The name that a statement declares in the scope it stands in. -/
def Stmt.name? : Stmt → Option String
  | .var name _ | .function name _ _ | .cls name => some name.lexeme
  | _ => none

/-- A statement that declares nothing has no declared name. -/
theorem Stmt.name?_eq_none {s : Stmt} (h : s.declares = false) : s.name? = none := by
  cases s with
  | var | function | cls => cases h
  | _ => rfl

mutual

/-- No branch and no body of a loop is a declaration. -/
def Stmt.Shaped : Stmt → Prop
  | .block body => Stmt.ShapedAll body
  | .branch _ yes none => yes.declares = false ∧ yes.Shaped
  | .branch _ yes (some no) =>
    (yes.declares = false ∧ yes.Shaped) ∧ no.declares = false ∧ no.Shaped
  | .loop _ body => body.declares = false ∧ body.Shaped
  | .function _ _ body => Stmt.ShapedAll body
  | _ => True

/-- No branch and no body of a loop in any of the statements is a declaration. -/
def Stmt.ShapedAll : List Stmt → Prop
  | [] => True
  | s :: ss => s.Shaped ∧ Stmt.ShapedAll ss

end

/-- Statements are shaped in two lists if and only if they are in the joined one. -/
theorem Stmt.shapedAll_append {ss ss' : List Stmt} :
    Stmt.ShapedAll (ss ++ ss') ↔ Stmt.ShapedAll ss ∧ Stmt.ShapedAll ss' := by
  induction ss with
  | nil => simp [Stmt.ShapedAll]
  | cons s ss ih => simp only [List.cons_append, Stmt.ShapedAll, ih, and_assoc]

namespace Grammar

/-- What the shape of a nonterminal's trees is. -/
def Nonterminal.Shaped : (n : Nonterminal) → n.Tree → Prop
  | declarations, ss => Stmt.ShapedAll ss
  | declaration, s | binding, s => s.Shaped
  | initializer, found => ∀ s ∈ found, s.Shaped
  | statement _, s => s.declares = false ∧ s.Shaped
  | _, _ => True

/-- The blocks and the `while` loop that stand for a `for` loop declare nothing outside. -/
theorem shaped_asWhile {initializer : Option Stmt} {condition increment : Option Expr}
    {body : Stmt} (hi : ∀ s ∈ initializer, s.Shaped) (hb : body.declares = false ∧ body.Shaped) :
    (asWhile initializer condition increment body).declares = false ∧
      (asWhile initializer condition increment body).Shaped := by
  cases initializer <;> cases increment <;>
    simp_all [asWhile, Stmt.declares, Stmt.Shaped, Stmt.ShapedAll]

/-- The grammar keeps declarations in their places. -/
theorem Derives.shaped {nearest : Bool} {n : Nonterminal} {ts : List Token} {x : n.Tree}
    (h : Derives nearest n ts x) : n.Shaped x := by
  induction h with
  | next _ _ ihs ihss => exact ⟨ihs, ihss⟩
  | done => exact trivial
  | function _ _ _ _ _ _ _ _ _ _ ihb => exact ihb
  | var _ _ ih => exact ih
  | statement _ ih => exact ih.2
  | ifOnly _ _ _ _ _ _ ihy => exact ⟨rfl, ihy⟩
  | ifElse _ _ _ _ _ _ _ _ _ ihy ihn => exact ⟨rfl, ihy, ihn⟩
  | loop _ _ _ _ _ _ ihb => exact ⟨rfl, ihb⟩
  | forLoop _ _ _ _ _ _ _ _ ihi _ _ ihb => exact shaped_asWhile ihi ihb
  | varInitializer _ _ ih => simpa [Nonterminal.Shaped] using ih
  | block _ _ _ ih => exact ⟨rfl, ih⟩
  | _ => simp [Nonterminal.Shaped, Stmt.Shaped, Stmt.declares]

end Grammar

/-- A program that is read without a fault has its declarations in their places. -/
theorem shaped_of_parse {tokens : List Token} (inner : ∀ t ∈ tokens, t.kind ≠ .eof) {eof : Token}
    (last : eof.kind = .eof) {first : NodeId} (h : (parse (tokens ++ [eof]) first).faults = []) :
    Stmt.ShapedAll (parse (tokens ++ [eof]) first).statements :=
  (derives_of_parse inner last first h).shaped

end Lox
