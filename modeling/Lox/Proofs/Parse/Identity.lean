import Mathlib.Data.List.Perm.Subperm
import Lox.Proofs.Parse.Advance
import Lox.Proofs.Parse.Position

/-!
# Identities are given out once

No two accesses that a rule has read share an identity, and all identities lie between the one the
cursor had ready before and the one it has ready after.  This holds with faults too: an identity
given out before a fault is lost.

A rule is given the identities before it as a list and says what the list is after it, up to the
order.  That is the form in which a loop can be handled that puts what it reads around what it has:
what has been read is part of the result, and the identities of both are accounted for at once.  A
result may also drop identities, as a list that turns out too long does, and then those that are
left were still given out once.

* `Minted` — identities given out in a range, none twice.
* `Rule.Mints` — what a rule adds to the identities given out before it.
* `parse_minted` — the accesses of a parsed program.
-/

namespace Lox

/-! ## The identities in a tree

The identities are those of the accesses, in the order of the text. -/

/-- The identities of the accesses in an expression. -/
def Expr.ids (e : Expr) : List NodeId :=
  e.accesses.map Access.id

/-- The identities of the accesses in expressions that follow each other. -/
def Expr.idsAll (es : List Expr) : List NodeId :=
  (Expr.accessesAll es).map Access.id

/-- The identities of the accesses in a statement. -/
def Stmt.ids (s : Stmt) : List NodeId :=
  s.accesses.map Access.id

/-- The identities of the accesses in statements that follow each other. -/
def Stmt.idsAll (ss : List Stmt) : List NodeId :=
  (Stmt.accessesAll ss).map Access.id

/-- The identities of two lists of statements. -/
theorem Stmt.idsAll_append (ss ss' : List Stmt) :
    Stmt.idsAll (ss ++ ss') = Stmt.idsAll ss ++ Stmt.idsAll ss' := by
  induction ss with
  | nil => rfl
  | cons s ss ih =>
      simp only [idsAll, List.cons_append, Stmt.accessesAll, List.map_append] at ih ⊢
      rw [ih, List.append_assoc]

namespace Parse

variable {α β : Type}

/-! ## Ranges

A rule gives out identities between the one that is ready before it and the one that is ready after
it. -/

/-- The identities lie in a range and none occurs twice. -/
structure Minted (lo hi : Nat) (ids : List Nat) : Prop where
  le : lo ≤ hi
  nodup : ids.Nodup
  range : ∀ id ∈ ids, lo ≤ id ∧ id < hi

namespace Minted

variable {lo mid hi : Nat} {ids ids' : List Nat}

theorem nil (h : lo ≤ hi) : Minted lo hi [] :=
  ⟨h, List.nodup_nil, by simp⟩

/-- The identities of one range and those of the next one make up the range of both. -/
theorem append (h : Minted lo mid ids) (h' : Minted mid hi ids') : Minted lo hi (ids ++ ids') := by
  refine ⟨Nat.le_trans h.le h'.le, List.nodup_append.2 ⟨h.nodup, h'.nodup, ?_⟩, ?_⟩
  · rintro id hid _ hid' rfl
    have below := (h.range id hid).2
    have above := (h'.range id hid').1
    omega
  · intro id hid
    have le := h.le
    have le' := h'.le
    rcases List.mem_append.1 hid with hid | hid
    · have := h.range id hid
      omega
    · have := h'.range id hid
      omega

/-- Some of the identities of a range, in any order. -/
theorem subperm (h : Minted lo hi ids) (hs : ids'.Subperm ids) : Minted lo hi ids' := by
  obtain ⟨ids'', perm, sub⟩ := hs
  refine ⟨h.le, perm.nodup_iff.1 (h.nodup.sublist sub), fun id hid => ?_⟩
  exact h.range id (sub.subset (perm.mem_iff.2 hid))

end Minted

/-! ## Rules

Of the steps of a reader only one gives out an identity; all others leave the list alone.  Sequences
hand the list on. -/

/-- With `before` given out so far, the rule comes to a result after which `after` is. -/
def Rule.Mints (before : List NodeId) (rule : Rule α) (after : α → List NodeId) : Prop :=
  ∀ ⦃lo : NodeId⦄ ⦃c : Cursor⦄ ⦃x : α⦄ ⦃d : Cursor⦄, Minted lo c.nextNode before →
    rule c = .ok x d → Minted lo d.nextNode (after x)

namespace Rule.Mints

variable {before : List NodeId} {kind : Kind} {tooMany : SyntaxFault} {bound : Nat}

/-- What was given out before a rule is not given out by it. -/
theorem frame {rule : Rule α} {ids : α → List NodeId} (h : Rule.Mints [] rule ids)
    (before : List NodeId) : Rule.Mints before rule fun x => before ++ ids x :=
  fun _ _ _ _ minted hc => minted.append (h (.nil (Nat.le_refl _)) hc)

/-- What the first part has given out is before the second. -/
theorem bind {x : Rule α} {f : α → Rule β} {mid : α → List NodeId} {after : β → List NodeId}
    (hx : Rule.Mints before x mid) (hf : ∀ a, Rule.Mints (mid a) (f a) after) :
    Rule.Mints before (x >>= f) after := by
  intro lo c b d minted hc
  obtain ⟨a, e, ha, hb⟩ := bind_eq_ok.1 hc
  exact hf a (hx minted ha) hb

/-- A result may drop some of the identities. -/
theorem pure {a : α} {after : α → List NodeId} (h : (after a).Subperm before) :
    Rule.Mints before (pure a) after := by
  intro lo c x d minted hc
  obtain ⟨rfl, rfl⟩ := pure_eq_ok.1 hc
  exact minted.subperm h

/-- What becomes of a result is what its identities are counted in. -/
theorem map {x : Rule α} {f : α → β} {after : β → List NodeId}
    (h : Rule.Mints before x fun a => after (f a)) : Rule.Mints before (f <$> x) after := by
  intro lo c b d minted hc
  obtain ⟨a, ha, rfl⟩ := map_eq_ok.1 hc
  exact h minted ha

theorem ite {p : Prop} [Decidable p] {x y : Rule α} {after : α → List NodeId}
    (hx : Rule.Mints before x after) (hy : Rule.Mints before y after) :
    Rule.Mints before (if p then x else y) after := by
  split
  · exact hx
  · exact hy

/-- A rule that fails has no result that could have identities. -/
theorem fail {fault : SyntaxFault} {after : α → List NodeId} :
    Rule.Mints before (fail fault) after :=
  fun _ _ _ _ _ hc => absurd hc fail_eq_ok

/-- A rule that gives out no identity. -/
theorem quiet {rule : Rule α} (h : ∀ c x d, rule c = .ok x d → d.nextNode = c.nextNode) :
    Rule.Mints before rule fun _ => before := by
  intro lo c x d minted hc
  rw [h c x d hc]
  exact minted

/-- A look at the end gives out nothing. -/
theorem ended : Rule.Mints before ended fun _ => before :=
  quiet fun c x d hc => by rw [(ended_eq_ok hc).2]

/-- A look ahead gives out nothing. -/
theorem sees : Rule.Mints before (sees kind) fun _ => before :=
  quiet fun c x d hc => by rw [(sees_eq_ok hc).2]

/-- To take a token gives out nothing. -/
theorem acceptAny {kinds : List Kind} : Rule.Mints before (acceptAny kinds) fun _ => before := by
  refine quiet fun c found d hc => ?_
  cases found with
  | none => rw [(acceptAny_eq_none hc).1]
  | some t => rw [(acceptAny_eq_some hc).2.2]

/-- To take a token of one kind gives out nothing. -/
theorem accept : Rule.Mints before (accept kind) fun _ => before :=
  acceptAny

theorem ifNext {yes : Token → Rule α} {no : Rule α} {after : α → List NodeId}
    (hy : ∀ t, Rule.Mints before (yes t) after) (hn : Rule.Mints before no after) :
    Rule.Mints before (ifNext kind yes no) after := by
  refine accept.bind fun found => ?_
  cases found with
  | some t => exact hy t
  | none => exact hn

/-- To take a token that has to be there gives out nothing. -/
theorem expect {what : Expected} : Rule.Mints before (expect kind what) fun _ => before :=
  quiet fun c t d hc => by rw [(expect_eq_ok hc).2.2]

/-- To take a constant gives out nothing. -/
theorem acceptLiteral : Rule.Mints before acceptLiteral fun _ => before := by
  refine quiet fun c found d hc => ?_
  cases found with
  | none => rw [acceptLiteral_eq_none hc]
  | some value =>
      obtain ⟨t, -, -, same⟩ := acceptLiteral_eq_some hc
      rw [same]

/-- **The one step that gives out an identity.** -/
theorem fresh : Rule.Mints before fresh fun id => before ++ [id] := by
  intro lo c id d minted hc
  obtain ⟨rfl, rfl⟩ := fresh_eq_ok hc
  exact minted.append ⟨Nat.le_succ _, by simp, by simp⟩

/-- A name gives out no identity, so a list of names gives out none. -/
theorem names {what : Expected} (room : Nat) :
    Rule.Mints before (separated tooMany (Parse.expect .identifier what) room)
      fun _ => before := by
  induction room with
  | zero => exact .fail
  | succ room ih =>
      unfold separated
      refine expect.bind fun name => accept.bind fun comma => ?_
      cases comma with
      | none => exact .pure (.refl _)
      | some t => exact ih.bind fun _ => .pure (.refl _)

theorem parameters {what : Expected} :
    Rule.Mints before (parenthesized tooMany (Parse.expect .identifier what)) fun _ => before :=
  sees.bind fun _ => .ite (.pure (.refl _)) (names maxArity)

/-! ## Expressions

Inside of an expression the rule for expressions is a parameter, given that what it reads has the
identities it gives out.  The bound of the recursion gets it in the end. -/

section
variable {rule : Rule Expr} (h : Rule.Mints [] rule Expr.ids)
include h

/-- The identities of the left operand stay in front of all those that follow. -/
theorem chain {kinds : List Kind} {node : Expr → Token → Expr → Expr}
    (hnode : ∀ left operator right, (node left operator right).ids = left.ids ++ right.ids)
    (bound : Nat) (left : Expr) :
    Rule.Mints left.ids (chain kinds node rule bound left) Expr.ids := by
  induction bound generalizing left with
  | zero => exact .pure (.refl _)
  | succ bound ih =>
      unfold Parse.chain
      refine acceptAny.bind fun operator => ?_
      cases operator with
      | none => exact .pure (.refl _)
      | some operator =>
          refine (h.frame left.ids).bind fun right => ?_
          rw [← hnode left operator right]
          exact ih _

theorem level {kinds : List Kind} {node : Expr → Token → Expr → Expr}
    (hnode : ∀ left operator right, (node left operator right).ids = left.ids ++ right.ids)
    (bound : Nat) : Rule.Mints [] (level kinds node rule bound) Expr.ids :=
  h.bind fun left => chain h hnode bound left

/-- A constant, a name with the identity it is given, or an expression in parentheses. -/
theorem primary : Rule.Mints [] (primary rule) Expr.ids := by
  unfold Parse.primary
  refine acceptLiteral.bind fun value => ?_
  cases value with
  | some value => exact .pure (.refl _)
  | none =>
      refine accept.bind fun name => ?_
      cases name with
      | some name => exact fresh.bind fun id => .pure (.refl _)
      | none =>
          refine accept.bind fun paren => ?_
          cases paren with
          | some paren => exact h.bind fun inner => expect.bind fun _ => .pure (.refl _)
          | none => exact .fail

/-- Expressions with commas between them. -/
theorem items (room : Nat) : Rule.Mints [] (separated tooMany rule room) Expr.idsAll := by
  induction room with
  | zero => exact .fail
  | succ room ih =>
      unfold separated
      refine h.bind fun e => accept.bind fun comma => ?_
      cases comma with
      | none =>
          refine .pure ?_
          simp only [Expr.idsAll, Expr.accessesAll, List.append_nil]
          exact .refl _
      | some comma =>
          refine (ih.frame e.ids).bind fun es => .pure ?_
          simp only [Expr.idsAll, Expr.accessesAll, List.map_append]
          exact .refl _

theorem arguments : Rule.Mints [] (parenthesized tooMany rule) Expr.idsAll :=
  sees.bind fun _ => .ite (.pure (.refl _)) (items h maxArity)

/-- The loop over calls and properties keeps the identities of the tree so far. -/
theorem suffixes (bound : Nat) (e : Expr) :
    Rule.Mints e.ids (suffixes rule bound e) Expr.ids := by
  induction bound generalizing e with
  | zero => exact .pure (.refl _)
  | succ bound ih =>
      unfold Parse.suffixes
      refine accept.bind fun paren => ?_
      cases paren with
      | some paren =>
          refine ((arguments h).frame e.ids).bind fun es => expect.bind fun paren => ?_
          have same : (Expr.call e paren es).ids = e.ids ++ Expr.idsAll es := by
            simp only [Expr.ids, Expr.idsAll, Expr.accesses, List.map_append]
          rw [← same]
          exact ih _
      | none =>
          refine accept.bind fun dot => ?_
          cases dot with
          | some dot => exact expect.bind fun name => ih (.get e name)
          | none => exact .pure (.refl _)

theorem suffixed (bound : Nat) : Rule.Mints [] (suffixed rule bound) Expr.ids :=
  (primary h).bind fun e => suffixes h bound e

/-- An operator before its operand has no identity of its own. -/
theorem unary (bound : Nat) : Rule.Mints [] (unary rule bound) Expr.ids := by
  induction bound with
  | zero => exact suffixed h 0
  | succ bound ih =>
      unfold Parse.unary
      refine acceptAny.bind fun operator => ?_
      cases operator with
      | some operator => exact ih.bind fun operand => .pure (.refl _)
      | none => exact suffixed h (bound + 1)

theorem disjunction (bound : Nat) : Rule.Mints [] (disjunction rule bound) Expr.ids := by
  have binary (left : Expr) (operator : Token) (right : Expr) :
      (Expr.binary left operator right).ids = left.ids ++ right.ids := by
    simp only [Expr.ids, Expr.accesses, List.map_append]
  have logical (left : Expr) (operator : Token) (right : Expr) :
      (Expr.logical left operator right).ids = left.ids ++ right.ids := by
    simp only [Expr.ids, Expr.accesses, List.map_append]
  exact level (level (level (level (level (level (unary h bound) binary bound) binary bound)
    binary bound) binary bound) logical bound) logical bound

omit h in
/-- The identity of a variable that turns out to be assigned is lost. -/
theorem assignTo (target : Expr) (line : Nat) (value : Expr) :
    Rule.Mints (target.ids ++ value.ids) (assignTo target line value) Expr.ids := by
  intro lo c e d minted hc
  rcases assignTo_eq_ok hc with ⟨id, name, rfl, rfl, rfl⟩ | ⟨object, name, rfl, rfl, rfl⟩
  · have minted : Minted lo (c.nextNode + 1) ([id] ++ value.ids ++ [c.nextNode]) :=
      minted.append ⟨Nat.le_succ _, by simp, by simp⟩
    refine minted.subperm ?_
    have perm : (c.nextNode :: value.ids).Perm (value.ids ++ [c.nextNode]) :=
      (List.perm_append_singleton _ _).symm
    rw [List.append_assoc]
    exact perm.subperm.trans (List.sublist_append_right [id] _).subperm
  · refine minted.subperm ?_
    have same : (Expr.set object name value).ids = (Expr.get object name).ids ++ value.ids := by
      simp only [Expr.ids, Expr.accesses, List.map_append]
    rw [same]

/-- An assignment has the identity of the access it is made from. -/
theorem assignment (bound : Nat) : Rule.Mints [] (assignment rule bound) Expr.ids := by
  unfold Parse.assignment
  refine (disjunction h bound).bind fun target => accept.bind fun equal => ?_
  cases equal with
  | some equal => exact (h.frame target.ids).bind fun value => assignTo target equal.line value
  | none => exact .pure (.refl _)

end

/-- An expression has the identities that were given out while it was read. -/
theorem expression (bound : Nat) : Rule.Mints [] (expression bound) Expr.ids := by
  induction bound with
  | zero => exact .fail
  | succ bound ih => exact assignment ih (bound + 1)

/-! ## Statements

The same for statements, with the rules for the statements inside as parameters.  After a fault the
identities that were given out before it belong to no tree. -/

/-- A clause that is missing has no identities. -/
theorem optionalUpTo (bound : Nat) :
    Rule.Mints [] (optionalUpTo kind bound) fun value => value.toList.flatMap Expr.ids := by
  refine sees.bind fun _ => .ite (.pure (.refl _)) (.map ?_)
  simpa using expression bound

/-- The identities of a statement that is an expression are those of the expression. -/
theorem expressionStatement (bound : Nat) :
    Rule.Mints [] (expressionStatement bound) Stmt.ids :=
  (expression bound).bind fun _ => expect.bind fun _ => .pure (.refl _)

theorem printed (bound : Nat) : Rule.Mints [] (printed bound) Stmt.ids :=
  (expression bound).bind fun _ => expect.bind fun _ => .pure (.refl _)

theorem returned (bound : Nat) (keyword : Token) :
    Rule.Mints [] (returned bound keyword) Stmt.ids := by
  rw [returned_eq]
  refine (optionalUpTo bound).bind fun value => expect.bind fun _ => .pure ?_
  simp only [Stmt.ids, Stmt.accesses, List.map_flatMap]
  exact .refl _

/-- A variable that is declared is no access, and its initializer has its own. -/
theorem variableDeclared (bound : Nat) : Rule.Mints [] (variableDeclared bound) Stmt.ids := by
  have value (found : Option Token) : Rule.Mints []
      (found.elim (Pure.pure none) fun _ => some <$> Parse.expression bound)
      fun value => value.toList.flatMap Expr.ids := by
    cases found with
    | none => exact .pure (.refl _)
    | some equal => exact .map (by simpa using expression bound)
  rw [variableDeclared_eq]
  refine expect.bind fun name => accept.bind fun found => (value found).bind fun initializer =>
    expect.bind fun _ => .pure ?_
  simp only [Stmt.ids, Stmt.accesses, List.map_flatMap]
  exact .refl _

theorem classDeclared : Rule.Mints [] classDeclared Stmt.ids := by
  unfold Parse.classDeclared
  refine expect.bind fun _ => expect.bind fun _ => accept.bind fun brace => ?_
  cases brace with
  | some brace => exact .pure (.refl _)
  | none => exact .fail

/-- The first clause of a `for` loop. -/
theorem forInitializer (bound : Nat) :
    Rule.Mints [] (forInitializer bound) fun s => s.toList.flatMap Stmt.ids := by
  unfold Parse.forInitializer
  refine accept.bind fun semicolon => ?_
  cases semicolon with
  | some semicolon => exact .pure (.refl _)
  | none =>
      refine accept.bind fun keyword => ?_
      cases keyword with
      | some keyword => exact .map (by simpa using variableDeclared bound)
      | none => exact .map (by simpa using expressionStatement bound)

/-- The clauses of a `for` loop keep their accesses, the increment's after those of the body. -/
theorem ids_forLoop (initializer : Option Stmt) (condition increment : Option Expr) (body : Stmt) :
    (forLoop initializer condition increment body).ids.Perm
      (initializer.toList.flatMap Stmt.ids ++ condition.toList.flatMap Expr.ids ++
        increment.toList.flatMap Expr.ids ++ body.ids) := by
  have order : (forLoop initializer condition increment body).ids =
      initializer.toList.flatMap Stmt.ids ++ (condition.toList.flatMap Expr.ids ++
        (body.ids ++ increment.toList.flatMap Expr.ids)) := by
    cases initializer <;> cases condition <;> cases increment <;>
      simp [forLoop, Stmt.ids, Expr.ids, Stmt.accesses, Stmt.accessesAll, Expr.accesses]
  rw [order, List.append_assoc, List.append_assoc]
  exact (List.perm_append_comm.append_left _).append_left _

section
variable {statement : Rule Stmt} {declaration : Rule (Option Stmt)}
  (hs : Rule.Mints [] statement Stmt.ids)
  (hd : Rule.Mints [] declaration fun found => found.toList.flatMap Stmt.ids)

include hd in
/-- Declarations one after another. -/
theorem declarations (braced : Bool) (bound : Nat) :
    Rule.Mints [] (declarations declaration braced bound) Stmt.idsAll := by
  induction bound with
  | zero => exact .pure (.refl _)
  | succ bound ih =>
      unfold Parse.declarations
      refine ended.bind fun _ => sees.bind fun _ => .ite (.pure (.refl _)) ?_
      refine hd.bind fun first => (ih.frame _).bind fun others => .pure ?_
      rw [Stmt.idsAll_append]
      cases first with
      | none => exact .refl _
      | some s =>
          simp only [Stmt.idsAll, Stmt.accessesAll, Stmt.ids, Option.toList_some,
            List.flatMap_cons, List.flatMap_nil, List.append_nil]
          exact .refl _

include hd in
theorem block (bound : Nat) : Rule.Mints [] (block declaration bound) Stmt.idsAll :=
  (declarations hd true bound).bind fun _ => expect.bind fun _ => .pure (.refl _)

include hd in
/-- A function declares its parameters and accesses nothing: its identities are those of its body.
-/
theorem functionDeclared (bound : Nat) :
    Rule.Mints [] (functionDeclared declaration bound) Stmt.ids :=
  expect.bind fun _ => expect.bind fun _ =>
    parameters.bind fun _ => expect.bind fun _ => expect.bind fun _ =>
      (block hd bound).bind fun body => .pure (List.Subperm.refl (Stmt.idsAll body))

include hs in
/-- The condition before the branches. -/
theorem branching (bound : Nat) : Rule.Mints [] (branching statement bound) Stmt.ids := by
  unfold Parse.branching
  refine expect.bind fun _ => (expression bound).bind fun condition => expect.bind fun _ =>
    (hs.frame _).bind fun yes => accept.bind fun keyword => ?_
  cases keyword with
  | some keyword =>
      refine (hs.frame _).bind fun no => .pure ?_
      simp only [Stmt.ids, Expr.ids, Stmt.accesses, List.map_append]
      exact .refl _
  | none =>
      refine .pure ?_
      simp only [Stmt.ids, Expr.ids, Stmt.accesses, List.map_append]
      exact .refl _

include hs in
/-- The condition before the body. -/
theorem looping (bound : Nat) : Rule.Mints [] (looping statement bound) Stmt.ids := by
  refine expect.bind fun _ => (expression bound).bind fun condition => expect.bind fun _ =>
    (hs.frame _).bind fun body => .pure ?_
  simp only [Stmt.ids, Expr.ids, Stmt.accesses, List.map_append]
  exact .refl _

include hs in
/-- The clauses of a `for` loop are moved around in its tree, each with its identities. -/
theorem counting (bound : Nat) : Rule.Mints [] (counting statement bound) Stmt.ids :=
  expect.bind fun _ => (forInitializer bound).bind fun initializer =>
    ((optionalUpTo bound).frame _).bind fun condition => expect.bind fun _ =>
      ((optionalUpTo bound).frame _).bind fun increment => expect.bind fun _ =>
        (hs.frame _).bind fun body => .pure (ids_forLoop initializer condition increment body).subperm

include hs hd in
/-- A statement has the identities that were given out while it was read. -/
theorem statementOf (bound : Nat) :
    Rule.Mints [] (statementOf statement declaration bound) Stmt.ids := by
  rw [statementOf_eq]
  exact .ifNext (fun _ => counting hs bound) <| .ifNext (fun _ => branching hs bound) <|
    .ifNext (fun _ => looping hs bound) <| .ifNext (fun keyword => returned bound keyword) <|
      .ifNext (fun _ => printed bound) <| .ifNext (fun _ => .map (block hd bound)) <|
        expressionStatement bound

include hs hd in
theorem declared (bound : Nat) :
    Rule.Mints [] (declared statement declaration bound) Stmt.ids := by
  rw [declared_eq]
  exact .ifNext (fun _ => classDeclared) <| .ifNext (fun _ => functionDeclared hd bound) <|
    .ifNext (fun _ => variableDeclared bound) <| statementOf hs hd bound

end

/-- After a fault there is no tree, and the next rule goes on from where the identities got to. -/
theorem recovering {rule : Rule Stmt} (ha : rule.Advances) (h : Rule.Mints [] rule Stmt.ids) :
    Rule.Mints [] (recovering rule) fun found => found.toList.flatMap Stmt.ids := by
  intro lo c found d minted hc
  cases found with
  | some s => simpa using h minted (recovering_eq_some hc)
  | none =>
      obtain ⟨fault, e, he, rfl⟩ := recovering_eq_none hc
      exact .nil (Nat.le_trans minted.le (ha.of_error he).nextNode)

/-- Both rules, by induction on the bound they share. -/
theorem statement_declaration (bound : Nat) :
    Rule.Mints [] (statement bound) Stmt.ids ∧
      Rule.Mints [] (declaration bound) fun found => found.toList.flatMap Stmt.ids := by
  induction bound with
  | zero => exact ⟨.fail, .pure (.refl _)⟩
  | succ bound ih =>
      obtain ⟨hs, hd⟩ := ih
      obtain ⟨has, had⟩ := Rule.Advances.statement_declaration bound
      exact ⟨statementOf hs hd _, recovering (.declared has had _) (declared hs hd _)⟩

end Rule.Mints

end Parse

open Parse

/-- **No identity is given out twice**: the accesses in a parsed program have different identities,
from the first one that was free before the parse up to the first one that is free after it. -/
theorem parse_minted (tokens : List Token) (first : NodeId) :
    Minted first (parse tokens first).nextNode (Stmt.idsAll (parse tokens first).statements) := by
  have start : Minted first (Parse.start tokens first).nextNode [] := .nil (Nat.le_refl _)
  rw [parse_eq, parseCursor]
  cases hp : program (tokens.length + 1) (Parse.start tokens first) with
  | ok ss d => exact Rule.Mints.declarations (Rule.Mints.statement_declaration _).2 false _ start hp
  | error fault d => exact .nil ((Rule.Advances.program _).of_error hp).nextNode

end Lox
