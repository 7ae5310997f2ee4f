import Lox.Proofs.Parse.Shape
import Lox.Proofs.Resolution.Scopes
import Lox.Proofs.Tree.Relabel

/-!
# The walk over a relabelled tree

Which programs are refused, and which distances are recorded, depends neither on the identities of
accesses nor on lines.

`relabelled` says of a walk what a relabelling does to it: the same success with other identities in
the entries, or the same refusal on another line.  Each lemma below is an equation with it, so that
the walk over a relabelled tree is rewritten step by step and never run.

* `Stmt.accesses_relabel`, `Stmt.shaped_relabel` — the accesses and the shape of a relabelled tree.
* `Resolution.relabelled` — what a walk yields, with other identities and lines.
* `Stmt.resolveAll_relabel` — that is what the walk over a relabelled tree yields.
* `resolve_relabel_isOk` — a program and a relabelled one are refused both or neither.
-/

namespace Lox

open Resolution

/-! ## Accesses and shape

What is read off a tree before it is walked. -/

section
variable (ids : NodeId → NodeId) (lines : Nat → Nat)

/-- An access with another identity, on another line. -/
def Access.relabel (a : Access) : Access :=
  ⟨ids a.id, a.name.mapLine lines, a.assigns⟩

mutual

/-- The accesses of a relabelled expression are its accesses, relabelled. -/
theorem Expr.accesses_relabel : ∀ e : Expr,
    (e.relabel ids lines).accesses = e.accesses.map (Access.relabel ids lines)
  | .literal _ | .read _ _ => rfl
  | .group inner => Expr.accesses_relabel inner
  | .unary _ operand => Expr.accesses_relabel operand
  | .binary left _ right | .logical left _ right => by
      simp only [Expr.relabel, Expr.accesses, List.map_append, Expr.accesses_relabel left,
        Expr.accesses_relabel right]
  | .assign _ _ value => by
      simp only [Expr.relabel, Expr.accesses, List.map_cons, Expr.accesses_relabel value]
      rfl
  | .call callee _ arguments => by
      simp only [Expr.relabel, Expr.accesses, List.map_append, Expr.accesses_relabel callee,
        Expr.accessesAll_relabel arguments]
  | .get object _ => Expr.accesses_relabel object
  | .set object _ value => by
      simp only [Expr.relabel, Expr.accesses, List.map_append, Expr.accesses_relabel object,
        Expr.accesses_relabel value]

theorem Expr.accessesAll_relabel : ∀ es : List Expr,
    Expr.accessesAll (Expr.relabelAll ids lines es) =
      (Expr.accessesAll es).map (Access.relabel ids lines)
  | [] => rfl
  | e :: es => by
      simp only [Expr.relabelAll, Expr.accessesAll, List.map_append, Expr.accesses_relabel e,
        Expr.accessesAll_relabel es]

end

theorem Expr.accessesOption_relabel (e : Option Expr) :
    (e.map (Expr.relabel ids lines)).toList.flatMap Expr.accesses =
      (e.toList.flatMap Expr.accesses).map (Access.relabel ids lines) := by
  cases e with
  | none => rfl
  | some e => simpa using Expr.accesses_relabel ids lines e

mutual

theorem Stmt.accesses_relabel : ∀ s : Stmt,
    (s.relabel ids lines).accesses = s.accesses.map (Access.relabel ids lines)
  | .expression e | .print e => Expr.accesses_relabel ids lines e
  | .var _ initializer => Expr.accessesOption_relabel ids lines initializer
  | .block body | .function _ _ body => Stmt.accessesAll_relabel body
  | .branch condition yes none => by
      simp only [Stmt.relabel, Stmt.accesses, List.map_append, Expr.accesses_relabel,
        Stmt.accesses_relabel yes]
  | .branch condition yes (some no) => by
      simp only [Stmt.relabel, Stmt.accesses, List.map_append, Expr.accesses_relabel,
        Stmt.accesses_relabel yes, Stmt.accesses_relabel no]
  | .loop condition body => by
      simp only [Stmt.relabel, Stmt.accesses, List.map_append, Expr.accesses_relabel,
        Stmt.accesses_relabel body]
  | .ret _ value => Expr.accessesOption_relabel ids lines value
  | .cls _ => rfl

theorem Stmt.accessesAll_relabel : ∀ ss : List Stmt,
    Stmt.accessesAll (Stmt.relabelAll ids lines ss) =
      (Stmt.accessesAll ss).map (Access.relabel ids lines)
  | [] => rfl
  | s :: ss => by
      simp only [Stmt.relabelAll, Stmt.accessesAll, List.map_append, Stmt.accesses_relabel s,
        Stmt.accessesAll_relabel ss]

end

theorem Stmt.declares_relabel (s : Stmt) : (s.relabel ids lines).declares = s.declares := by
  cases s with
  | branch _ _ no => cases no <;> rfl
  | _ => rfl

mutual

/-- A relabelled tree has its declarations in the same places. -/
theorem Stmt.shaped_relabel : ∀ s : Stmt, s.Shaped → (s.relabel ids lines).Shaped
  | .expression _, h | .print _, h | .var _ _, h | .ret _ _, h | .cls _, h => h
  | .block body, h | .function _ _ body, h => Stmt.shapedAll_relabel body h
  | .branch _ yes none, ⟨nothing, h⟩ | .loop _ yes, ⟨nothing, h⟩ =>
      ⟨(Stmt.declares_relabel ids lines yes).trans nothing, Stmt.shaped_relabel yes h⟩
  | .branch _ yes (some no), ⟨⟨nothingY, hY⟩, nothingN, hN⟩ =>
      ⟨⟨(Stmt.declares_relabel ids lines yes).trans nothingY, Stmt.shaped_relabel yes hY⟩,
        (Stmt.declares_relabel ids lines no).trans nothingN, Stmt.shaped_relabel no hN⟩

theorem Stmt.shapedAll_relabel : ∀ ss : List Stmt, Stmt.ShapedAll ss →
    Stmt.ShapedAll (Stmt.relabelAll ids lines ss)
  | [], h => h
  | s :: ss, ⟨h, hs⟩ => ⟨Stmt.shaped_relabel s h, Stmt.shapedAll_relabel ss hs⟩

end

end

/-! ## The walk

The open scopes know names and no lines, so they are the same in both walks. -/

namespace Resolution

variable {α β γ δ : Type} (lines : Nat → Nat)

/-- What a walk yields, with other lines and a changed result. -/
def relabelled (f : α → β) : Except Fault α → Except Fault β
  | .ok a => .ok (f a)
  | .error (line, fault) => .error (lines line, fault)

variable {lines}

/-- A sequence is relabelled if both of its parts are. -/
theorem relabel_bind {f : α → β} {g : γ → δ} {x : Except Fault α} {k : α → Except Fault γ}
    {k' : β → Except Fault δ} (h : ∀ a, k' (f a) = relabelled lines g (k a)) :
    (relabelled lines f x >>= k') = relabelled lines g (x >>= k) := by
  cases x with
  | ok a => exact h a
  | error fault => rfl

/-- A walk succeeds relabelled if it succeeds. -/
theorem relabel_isOk {f : α → β} {x : Except Fault α} :
    (∃ b, relabelled lines f x = .ok b) ↔ ∃ a, x = .ok a := by
  cases x with
  | ok a => exact ⟨fun _ => ⟨a, rfl⟩, fun _ => ⟨f a, rfl⟩⟩
  | error fault =>
      refine ⟨?_, ?_⟩
      · rintro ⟨b, h⟩
        cases h
      · rintro ⟨a, h⟩
        cases h

/-- Entries of accesses with other identities. -/
def relabelEntries (ids : NodeId → NodeId) (entries : List Entry) : List Entry :=
  entries.map fun (id, distance) => (ids id, distance)

theorem relabelEntries_append (ids : NodeId → NodeId) (es fs : List Entry) :
    relabelEntries ids (es ++ fs) = relabelEntries ids es ++ relabelEntries ids fs :=
  List.map_append

/-- The entry of an access has the other identity and the same distance. -/
theorem relabelEntries_entry (ids : NodeId → NodeId) (scopes : Scopes) (id : NodeId) (x : String) :
    scopes.entry (ids id) x = relabelEntries ids (scopes.entry id x) := by
  unfold Scopes.entry
  cases scopes.distance? x <;> rfl

namespace Scopes

/-- A declaration is refused on its own line. -/
theorem declare_mapLine (scopes : Scopes) (name : Token) :
    scopes.declare (name.mapLine lines) = relabelled lines id (scopes.declare name) := by
  cases scopes with
  | nil => rfl
  | cons s outer =>
      have same : s.declares (name.mapLine lines).lexeme = s.declares name.lexeme := rfl
      unfold declare
      dsimp only
      cases hs : s.declares name.lexeme with
      | true =>
          rw [if_pos (same.trans hs), if_pos rfl]
          rfl
      | false =>
          rw [if_neg (by simp [hs]), if_neg Bool.false_ne_true]
          rfl

/-- A definition does not look at lines. -/
theorem define_mapLine (scopes : Scopes) (name : Token) :
    scopes.define (name.mapLine lines) = scopes.define name := by
  cases scopes <;> rfl

theorem introduce_mapLine (scopes : Scopes) (name : Token) :
    scopes.introduce (name.mapLine lines) = relabelled lines id (scopes.introduce name) := by
  unfold introduce
  rw [declare_mapLine]
  refine relabel_bind fun declared => ?_
  rw [define_mapLine]
  rfl

theorem introduceAll_mapLine (scopes : Scopes) (parameters : List Token) :
    (parameters.map (Token.mapLine lines)).foldlM introduce scopes =
      relabelled lines id (parameters.foldlM introduce scopes) := by
  induction parameters generalizing scopes with
  | nil => rfl
  | cons p ps ih =>
      rw [List.map_cons, List.foldlM_cons, List.foldlM_cons, introduce_mapLine]
      exact relabel_bind ih

theorem openFunction_mapLine (scopes : Scopes) (parameters : List Token) :
    scopes.openFunction (parameters.map (Token.mapLine lines)) =
      relabelled lines id (scopes.openFunction parameters) :=
  introduceAll_mapLine _ parameters

end Scopes

end Resolution

section
variable (ids : NodeId → NodeId) (lines : Nat → Nat)

mutual

/-- **The walk over a relabelled expression.** -/
theorem Expr.resolve_relabel (own? : Option String) (scopes : Scopes) : ∀ e : Expr,
    (e.relabel ids lines).resolve own? scopes =
      relabelled lines (relabelEntries ids) (e.resolve own? scopes)
  | .literal _ => rfl
  | .group inner => Expr.resolve_relabel own? scopes inner
  | .unary _ operand => Expr.resolve_relabel own? scopes operand
  | .binary left _ right | .logical left _ right => by
      simp only [Expr.relabel, Expr.resolve, Expr.resolve_relabel own? scopes left,
        Expr.resolve_relabel own? scopes right]
      refine relabel_bind fun first => relabel_bind fun second => ?_
      rw [← relabelEntries_append]
      rfl
  | .read id name => by
      simp only [Expr.relabel, Expr.resolve, Token.lexeme_mapLine, Token.line_mapLine,
        relabelEntries_entry]
      cases scopes.isPending name.lexeme || own? == some name.lexeme <;> rfl
  | .assign id name value => by
      simp only [Expr.relabel, Expr.resolve, Expr.resolve_relabel own? scopes value,
        Token.lexeme_mapLine, relabelEntries_entry]
      refine relabel_bind fun first => ?_
      rw [← relabelEntries_append]
      rfl
  | .call callee _ arguments => by
      simp only [Expr.relabel, Expr.resolve, Expr.resolve_relabel own? scopes callee,
        Expr.resolveAll_relabel own? scopes arguments]
      refine relabel_bind fun first => relabel_bind fun second => ?_
      rw [← relabelEntries_append]
      rfl
  | .get object _ => Expr.resolve_relabel own? scopes object
  | .set object _ value => by
      simp only [Expr.relabel, Expr.resolve, Expr.resolve_relabel own? scopes object,
        Expr.resolve_relabel own? scopes value]
      refine relabel_bind fun first => relabel_bind fun second => ?_
      rw [← relabelEntries_append]
      rfl

theorem Expr.resolveAll_relabel (own? : Option String) (scopes : Scopes) : ∀ es : List Expr,
    Expr.resolveAll own? scopes (Expr.relabelAll ids lines es) =
      relabelled lines (relabelEntries ids) (Expr.resolveAll own? scopes es)
  | [] => rfl
  | e :: es => by
      simp only [Expr.relabelAll, Expr.resolveAll, Expr.resolve_relabel own? scopes e,
        Expr.resolveAll_relabel own? scopes es]
      refine relabel_bind fun first => relabel_bind fun second => ?_
      rw [← relabelEntries_append]
      rfl

end

theorem Expr.resolveOption_relabel (own? : Option String) (scopes : Scopes) (e : Option Expr) :
    Expr.resolveOption own? scopes (e.map (Expr.relabel ids lines)) =
      relabelled lines (relabelEntries ids) (Expr.resolveOption own? scopes e) := by
  cases e with
  | none => rfl
  | some e => exact Expr.resolve_relabel ids lines own? scopes e

mutual

/-- **The walk over a relabelled statement.** -/
theorem Stmt.resolve_relabel : ∀ (s : Stmt) (scopes : Scopes),
    (s.relabel ids lines).resolve scopes =
      relabelled lines (Prod.map id (relabelEntries ids)) (s.resolve scopes)
  | .expression e, scopes | .print e, scopes => by
      simp only [Stmt.relabel, Stmt.resolve, Expr.resolve_relabel]
      exact relabel_bind fun _ => rfl
  | .var name initializer, scopes => by
      simp only [Stmt.relabel, Stmt.resolve, Scopes.declare_mapLine, Expr.resolveOption_relabel,
        Token.lexeme_mapLine, Scopes.define_mapLine]
      exact relabel_bind fun _ => relabel_bind fun _ => rfl
  | .block body, scopes => by
      simp only [Stmt.relabel, Stmt.resolve, Stmt.resolveAll_relabel body]
      exact relabel_bind fun _ => rfl
  | .branch condition yes none, scopes => by
      simp only [Stmt.relabel, Stmt.resolve, Expr.resolve_relabel, Stmt.resolve_relabel yes]
      refine relabel_bind fun first => relabel_bind fun second => ?_
      simp only [Prod.map, ← relabelEntries_append]
      rfl
  | .branch condition yes (some no), scopes => by
      simp only [Stmt.relabel, Stmt.resolve, Expr.resolve_relabel, Stmt.resolve_relabel yes,
        Stmt.resolve_relabel no]
      refine relabel_bind fun first => relabel_bind fun second => relabel_bind fun third => ?_
      simp only [Prod.map, ← relabelEntries_append]
      rfl
  | .loop condition body, scopes => by
      simp only [Stmt.relabel, Stmt.resolve, Expr.resolve_relabel, Stmt.resolve_relabel body]
      refine relabel_bind fun first => relabel_bind fun second => ?_
      simp only [Prod.map, ← relabelEntries_append]
      rfl
  | .function name parameters body, scopes => by
      simp only [Stmt.relabel, Stmt.resolve, Scopes.introduce_mapLine, Scopes.openFunction_mapLine,
        Stmt.resolveAll_relabel body]
      exact relabel_bind fun _ => relabel_bind fun _ => relabel_bind fun _ => rfl
  | .ret keyword value, scopes => by
      simp only [Stmt.relabel, Stmt.resolve, Expr.resolveOption_relabel, Token.line_mapLine]
      cases scopes.inFunction with
      | false => rfl
      | true => exact relabel_bind fun _ => rfl
  | .cls name, scopes => by
      simp only [Stmt.relabel, Stmt.resolve, Scopes.introduce_mapLine]
      exact relabel_bind fun _ => rfl

theorem Stmt.resolveAll_relabel : ∀ (ss : List Stmt) (scopes : Scopes),
    Stmt.resolveAll scopes (Stmt.relabelAll ids lines ss) =
      relabelled lines (Prod.map id (relabelEntries ids)) (Stmt.resolveAll scopes ss)
  | [], scopes => rfl
  | s :: ss, scopes => by
      simp only [Stmt.relabelAll, Stmt.resolveAll, Stmt.resolve_relabel s,
        Stmt.resolveAll_relabel ss]
      refine relabel_bind fun first => relabel_bind fun second => ?_
      simp only [Prod.map, ← relabelEntries_append]
      rfl

end

end

/-- The walk over a relabelled program. -/
theorem resolve_relabel (ids : NodeId → NodeId) (lines : Nat → Nat) (program : List Stmt) :
    resolve (program.map (Stmt.relabel ids lines)) =
      relabelled lines (relabelEntries ids) (resolve program) := by
  rw [← Stmt.relabelAll_eq_map]
  simp only [resolve, Stmt.resolveAll_relabel]
  exact relabel_bind fun _ => rfl

/-- Whether a program is refused has nothing to do with identities and lines. -/
theorem resolve_relabel_isOk (ids : NodeId → NodeId) (lines : Nat → Nat) (program : List Stmt) :
    (∃ entries, resolve (program.map (Stmt.relabel ids lines)) = .ok entries) ↔
      ∃ entries, resolve program = .ok entries := by
  rw [resolve_relabel]
  exact relabel_isOk

/-- On other lines the same distances are recorded. -/
theorem resolve_mapLine {lines : Nat → Nat} {program : List Stmt} {entries : List Entry}
    (h : resolve program = .ok entries) :
    resolve (program.map (Stmt.relabel id lines)) = .ok entries := by
  rw [resolve_relabel, h]
  exact congrArg Except.ok (List.map_id entries)

end Lox
