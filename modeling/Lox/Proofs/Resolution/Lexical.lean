import Lox.Proofs.Resolution.Events
import Lox.Proofs.Resolution.Table

/-!
# The walk computes lexical scoping

The walk over a tree, with its open scopes, does what the rules of lexical scoping say of the
events of the tree.

The walk keeps a stack of scopes and forgets what was closed; the rules look back over all events.
What connects the two is `Stands`: after some events, the open scopes have exactly the names that
the events before declared in the scopes around the place.  It is an invariant of the walk, with one
exception, the variable whose initializer is being resolved, which its scope has declared and does
not let be read.  Here the events of the initializer come before the declaration, and the walk is
told of its name.

* `Stands` — the open scopes of the walk after some events, at a place.
* `Follows` — a step of the walk records what some events denote, or fails for the first of them
  that breaks a rule.
* `Stmt.follows` — the walk over a statement follows its events.
* `resolve_lexical` — so it does for a program.
-/

namespace Lox

namespace Resolution

/-! ## Open scopes

What each operation of the walk does to the invariant. -/

/-- The open scopes have the names that the scopes around a place have declared. -/
def Named (before : List Event) (around : List Nat) (scopes : Scopes) : Prop :=
  List.Forall₂ (fun scope s => ∀ x, Scope.declares s x = declared before scope x) around scopes

/-- Events that declare nothing. -/
def Quiet (es : List Event) : Prop :=
  ∀ scope x, declared es scope x = false

/-- **The open scopes of the walk after some events, at a place**, with `next` blocks and functions
behind it. -/
structure Stands (before : List Event) (next : Nat) (place : Place) (scopes : Scopes) : Prop where
  named : Named before place.scopes scopes
  inFunction : scopes.inFunction = place.inFunction
  /-- A scope is inside those that were opened before it. -/
  order : (next :: place.scopes).Pairwise (· > ·)
  /-- A scope that is still to be opened has no names. -/
  opened : ∀ scope x, declared before scope x = true → scope < next
  settled : scopes.Settled

variable {before es fs : List Event} {next : Nat} {place : Place} {around : List Nat}
  {scopes after : Scopes} {s : Scope} {outer : Scopes} {name : Token}

/-- Events that declare nothing change nothing. -/
theorem declared_append_quiet (h : Quiet es) (scope : Nat) (x : String) :
    declared (before ++ es) scope x = declared before scope x := by
  rw [declared_append, h, Bool.or_false]

theorem Quiet.append (h : Quiet es) (h' : Quiet fs) : Quiet (es ++ fs) :=
  fun scope x => by rw [declared_append_quiet h', h]

/-- The distance that the walk finds is the one that the events say. -/
theorem Named.distance? (h : Named before around scopes) (x : String) :
    scopes.distance? x = around.findIdx? (declared before · x) := by
  induction h with
  | nil => rfl
  | cons same _ ih => rw [Scopes.distance?_cons, List.findIdx?_cons, same, ih]

theorem Named.quiet (h : Named before around scopes) (quiet : Quiet es) :
    Named (before ++ es) around scopes :=
  h.imp fun _ _ same x => by rw [declared_append_quiet quiet, same]

/-- A declaration is of the innermost scope; those outside it are other scopes. -/
theorem Named.declare {t : Scope} (h : Named before place.scopes (s :: outer))
    (order : place.scopes.Pairwise (· > ·))
    (ht : ∀ x, t.declares x = (decide (x = name.lexeme) || s.declares x)) :
    Named (before ++ [⟨place, .declares name⟩]) place.scopes (t :: outer) := by
  obtain ⟨scopes, inFunction⟩ := place
  cases h with
  | @cons scope _ others _ same houter =>
      obtain ⟨inner, -⟩ := List.pairwise_cons.1 order
      refine .cons (fun x => ?_)
        ((List.forall₂_and_left _ _).2 ⟨inner, houter⟩ |>.imp fun scope' _ ⟨lt, same⟩ x => ?_)
      · rw [ht, same, Bool.eq_iff_iff]
        simp [Event.declares, or_comm, eq_comm (a := x)]
      · have other : (scope == scope') = false := by simpa using Nat.ne_of_gt lt
        simp [Event.declares, same, other]

theorem Stands.quiet (h : Stands before next place scopes) (quiet : Quiet es) :
    Stands (before ++ es) next place scopes :=
  { h with
    named := h.named.quiet quiet
    opened := fun scope x => by
      rw [declared_append_quiet quiet]
      exact h.opened scope x }

/-- A declaration at the top level is global. -/
theorem Stands.quiet_top (h : Stands before next place []) :
    Quiet [⟨place, .declares name⟩] := by
  obtain ⟨around, inFunction⟩ := place
  cases h.named
  exact fun _ _ => rfl

theorem Stands.introduce (h : Stands before next place (s :: outer)) (name : Token) :
    Stands (before ++ [⟨place, .declares name⟩]) next place
      ((s.add name.lexeme false).add name.lexeme true :: outer) where
  named := h.named.declare (List.pairwise_cons.1 h.order).2 fun x => by
    simp [Scope.declares_add]
  inFunction := h.inFunction
  order := h.order
  opened scope x hd := by
    simp only [declared_append, declared_cons, declared_nil, Bool.or_false, Bool.or_eq_true,
      declares_declares] at hd
    rcases hd with hd | ⟨innermost, -⟩
    · exact h.opened scope x hd
    · exact (List.pairwise_cons.1 h.order).1 scope (List.mem_of_head? innermost)
  settled := by
    obtain ⟨hs, houter⟩ := List.forall_mem_cons.1 h.settled
    exact List.forall_mem_cons.2 ⟨hs.add.of_lookup fun _ => Scope.lookup_add_add, houter⟩

/-- A scope that is opened has no names yet. -/
theorem Stands.openScope (h : Stands before next place scopes) (inFunction : Bool) :
    Stands before (next + 1) ⟨next :: place.scopes, inFunction⟩
      ({ inFunction := inFunction } :: scopes) where
  named := by
    refine .cons (fun x => ?_) h.named
    have unopened : declared before next x = false :=
      Bool.eq_false_iff.2 fun hd => Nat.lt_irrefl next (h.opened next x hd)
    rw [unopened]
    rfl
  inFunction := rfl
  order := by
    obtain ⟨below, -⟩ := List.pairwise_cons.1 h.order
    refine List.pairwise_cons.2 ⟨fun scope hs => ?_, h.order⟩
    rcases List.mem_cons.1 hs with rfl | hs
    · exact Nat.lt_succ_self scope
    · exact Nat.lt_succ_of_lt (below scope hs)
  opened scope x hd := Nat.lt_succ_of_lt (h.opened scope x hd)
  settled := List.forall_mem_cons.2 ⟨fun _ => by simp, h.settled⟩

/-- After a scope is closed, those outside it are as they were. -/
theorem Stands.closeScope {scope : Nat} {inFunction : Bool}
    (h : Stands before next ⟨scope :: place.scopes, inFunction⟩ after)
    (same : after.tail = scopes) (outside : scopes.inFunction = place.inFunction) :
    Stands before next place scopes := by
  obtain ⟨named, -, order, opened, settled⟩ := h
  cases named with
  | @cons _ t _ _ _ named =>
      subst same
      refine ⟨named, outside, ?_, opened, (List.forall_mem_cons.1 settled).2⟩
      exact order.sublist (.cons_cons _ (List.sublist_cons_self _ _))

end Resolution

open Resolution

/-! ## Expressions

An expression declares nothing, so the walk over it is compared with its events directly. -/

mutual

/-- An expression declares nothing. -/
theorem Expr.quiet {place : Place} {owner? : Option String} :
    ∀ e : Expr, Quiet (e.events place owner?)
  | .literal _ => fun _ _ => rfl
  | .group inner => Expr.quiet inner
  | .unary _ operand => Expr.quiet operand
  | .binary left _ right | .logical left _ right =>
      (Expr.quiet left).append (Expr.quiet right)
  | .read _ _ => fun _ _ => rfl
  | .assign _ _ value => (Expr.quiet value).append fun _ _ => rfl
  | .call callee _ arguments => (Expr.quiet callee).append (Expr.quietAll arguments)
  | .get object _ => Expr.quiet object
  | .set object _ value => (Expr.quiet value).append (Expr.quiet object)

theorem Expr.quietAll {place : Place} {owner? : Option String} :
    ∀ es : List Expr, Quiet (Expr.eventsAll place owner? es)
  | [] => fun _ _ => rfl
  | e :: es => (Expr.quiet e).append (Expr.quietAll es)

end

theorem Expr.quietOption {place : Place} {owner? : Option String} :
    ∀ e? : Option Expr, Quiet (Expr.eventsOption place owner? e?)
  | none => fun _ _ => rfl
  | some e => e.quiet

section
variable {place : Place} {scopes : Scopes} {own? owner? : Option String} {before : List Event}

/-- The open scopes tell the names of the variables whose initializer an expression stands in. -/
def Resolution.Owned (own? owner? : Option String) (scopes : Scopes) : Prop :=
  ∀ x, (scopes.isPending x || own? == some x) = (owner? == some x)

mutual

/-- The walk over an expression judges its events. -/
theorem Expr.resolve_eq_judgeAll : ∀ (e : Expr) {before : List Event},
    Owned own? owner? scopes → Named before place.scopes scopes →
      e.resolve own? scopes = judgeAll before (e.events place owner?)
  | .literal _, before, _, h => rfl
  | .group inner, before, owned, h => Expr.resolve_eq_judgeAll inner owned h
  | .unary _ operand, before, owned, h => Expr.resolve_eq_judgeAll operand owned h
  | .binary left _ right, before, owned, h
  | .logical left _ right, before, owned, h => by
      simp only [resolve, events, judgeAll_append]
      rw [Expr.resolve_eq_judgeAll left owned h,
        Expr.resolve_eq_judgeAll right owned (h.quiet left.quiet)]
  | .read id name, before, owned, h => by
      simp only [resolve, events, owned name.lexeme, judgeAll_singleton, Event.fault?]
      cases owner? == some name.lexeme with
      | true => rfl
      | false => simp [Event.entries, Event.access?, Scopes.entry, h.distance?, pure, Except.pure]
  | .assign id name value, before, owned, h => by
      have quiet : Quiet (value.events place owner?) := value.quiet
      simp only [resolve, events, judgeAll_append, judgeAll_singleton]
      rw [Expr.resolve_eq_judgeAll value owned h]
      simp only [Event.fault?, Event.entries, Event.access?, Scopes.entry,
        (h.quiet quiet).distance?]
      rfl
  | .call callee _ arguments, before, owned, h => by
      simp only [resolve, events, judgeAll_append]
      rw [Expr.resolve_eq_judgeAll callee owned h,
        Expr.resolveAll_eq_judgeAll arguments owned (h.quiet callee.quiet)]
  | .get object _, before, owned, h => Expr.resolve_eq_judgeAll object owned h
  | .set object _ value, before, owned, h => by
      simp only [resolve, events, judgeAll_append]
      rw [Expr.resolve_eq_judgeAll value owned h,
        Expr.resolve_eq_judgeAll object owned (h.quiet value.quiet)]

theorem Expr.resolveAll_eq_judgeAll : ∀ (es : List Expr) {before : List Event},
    Owned own? owner? scopes → Named before place.scopes scopes →
      Expr.resolveAll own? scopes es = judgeAll before (Expr.eventsAll place owner? es)
  | [], before, _, h => rfl
  | e :: es, before, owned, h => by
      simp only [resolveAll, eventsAll, judgeAll_append]
      rw [Expr.resolve_eq_judgeAll e owned h,
        Expr.resolveAll_eq_judgeAll es owned (h.quiet e.quiet)]

end

theorem Expr.resolveOption_eq_judgeAll {e? : Option Expr} (owned : Owned own? owner? scopes)
    (h : Named before place.scopes scopes) :
    Expr.resolveOption own? scopes e? = judgeAll before (Expr.eventsOption place owner? e?) := by
  cases e? with
  | none => rfl
  | some e => exact Expr.resolve_eq_judgeAll e owned h

end

/-! ## Statements

A statement may declare, so the scopes after it have to stand after its events. -/

namespace Resolution

/-- **A step of the walk follows some events**: it fails with the fault that is found in them, or
it records their entries and leaves scopes as described. -/
inductive Follows (x : Except Fault (Scopes × List Entry)) (before es : List Event)
    (left : Scopes → Prop) : Prop
  | fails {fault : Fault} (judged : judgeAll before es = .error fault) (step : x = .error fault) :
      Follows x before es left
  | passes {entries : List Entry} {scopes : Scopes} (judged : judgeAll before es = .ok entries)
      (step : x = .ok (scopes, entries)) (leaves : left scopes) : Follows x before es left

namespace Follows

variable {before es fs : List Event} {scopes : Scopes} {left left' : Scopes → Prop}
  {x : Except Fault (Scopes × List Entry)} {y : Except Fault (List Entry)}
  {f : Scopes → Except Fault (Scopes × List Entry)}

/-- Less may be said of the scopes that are left. -/
theorem mono (h : Follows x before es left) (imp : ∀ s, left s → left' s) :
    Follows x before es left' := by
  cases h with
  | fails judged step => exact .fails judged step
  | passes judged step leaves => exact .passes judged step (imp _ leaves)

/-- An expression leaves the scopes as they are. -/
theorem expression (h : y = judgeAll before es) (hs : left scopes) :
    Follows (do return (scopes, ← y)) before es left := by
  cases judged : judgeAll before es with
  | error fault => exact .fails judged (by rw [h, judged]; rfl)
  | ok entries => exact .passes judged (by rw [h, judged]; rfl) hs

theorem append (h : Follows x before es left)
    (h' : ∀ s, left s → Follows (f s) (before ++ es) fs left') :
    Follows (do
      let (scopes, first) ← x
      let (scopes, second) ← f scopes
      return (scopes, first ++ second)) before (es ++ fs) left' := by
  cases h with
  | fails judged step =>
      refine .fails ?_ (except_bind_eq_error.2 (.inl step))
      rw [judgeAll_append]
      exact except_bind_eq_error.2 (.inl judged)
  | passes judged step leaves =>
      cases h' _ leaves with
      | fails judged' step' =>
          refine .fails ?_
            (except_bind_eq_error.2 (.inr ⟨_, step, except_bind_eq_error.2 (.inl step')⟩))
          rw [judgeAll_append]
          exact except_bind_eq_error.2 (.inr ⟨_, judged, except_bind_eq_error.2 (.inl judged')⟩)
      | passes judged' step' leaves' =>
          refine .passes ?_
            (except_bind_eq_ok.2 ⟨_, step, except_bind_eq_ok.2 ⟨_, step', rfl⟩⟩) leaves'
          rw [judgeAll_append]
          exact except_bind_eq_ok.2 ⟨_, judged, except_bind_eq_ok.2 ⟨_, judged', rfl⟩⟩

theorem inside (h : Follows x before es left) (hs : ∀ s, left s → left' scopes) :
    Follows (do
      let (_, entries) ← x
      return (scopes, entries)) before es left' := by
  cases h with
  | fails judged step => exact .fails judged (by rw [step]; rfl)
  | passes judged step leaves => exact .passes judged (by rw [step]; rfl) (hs _ leaves)

theorem after (h : y = judgeAll before es) (h' : Follows x (before ++ es) fs left) :
    Follows (do
      let first ← y
      let (scopes, second) ← x
      return (scopes, first ++ second)) before (es ++ fs) left := by
  have first : Follows (do return (([] : Scopes), ← y)) before es fun _ => True :=
    expression h trivial
  have both := first.append (f := fun _ => x) fun _ _ => h'
  simpa only [bind_assoc, pure_bind] using both

/-- An event that is no access and breaks no rule. -/
theorem cons {e : Event} (lawful : e.fault? before = none) (access : e.access? = none)
    (h : Follows x (before ++ [e]) es left) : Follows x before (e :: es) left := by
  have nothing : e.entries before = [] := by
    simp [Event.entries, access]
  cases h with
  | fails judged step => exact .fails (judgeAll_cons_eq_error.2 (.inr ⟨lawful, judged⟩)) step
  | passes judged step leaves =>
      refine .passes (judgeAll_cons_eq_ok.2 ⟨lawful, _, judged, ?_⟩) step leaves
      rw [nothing, List.nil_append]

/-- An event that breaks a rule is where both stop. -/
theorem of_fault {e : Event} {fault : Fault} (breaks : e.fault? before = some fault)
    (step : x = .error fault) : Follows x before (e :: es) left :=
  .fails (judgeAll_cons_of_fault breaks) step

variable {next : Nat} {place : Place} {name : Token}

/-- A declaration: at the top level nothing is tracked, elsewhere the name is new in the innermost
scope. -/
theorem declare (h : Stands before next place scopes)
    (top : scopes = [] → Follows (f []) (before ++ [⟨place, .declares name⟩]) es left)
    (inner : ∀ s outer, scopes = s :: outer → s.declares name.lexeme = false →
      Follows (f (s.add name.lexeme false :: outer)) (before ++ [⟨place, .declares name⟩]) es
        left) :
    Follows (scopes.declare name >>= f) before (⟨place, .declares name⟩ :: es) left := by
  obtain ⟨around, inFunction⟩ := place
  cases h.named with
  | nil => exact .cons rfl rfl (top rfl)
  | @cons scope s around outer same _ =>
      cases hs : s.declares name.lexeme with
      | false =>
          rw [Scopes.declare_cons hs]
          refine .cons ?_ rfl (inner s outer rfl hs)
          simp [Event.fault?, ← same, hs]
      | true =>
          have breaks : Event.fault? before ⟨⟨scope :: around, inFunction⟩, .declares name⟩ =
              some (name.line, .alreadyDeclared) := by
            simp [Event.fault?, ← same, hs]
          refine .of_fault breaks (except_bind_eq_error.2 (.inl ?_))
          simp [Scopes.declare, hs]

/-- A declaration, and what follows it. -/
theorem introduce (h : Stands before next place scopes)
    (h' : ∀ after, Stands (before ++ [⟨place, .declares name⟩]) next place after →
      after.tail = scopes.tail → Follows (f after) (before ++ [⟨place, .declares name⟩]) es left) :
    Follows (scopes.introduce name >>= f) before (⟨place, .declares name⟩ :: es) left := by
  simp only [Scopes.introduce, bind_assoc, pure_bind]
  refine .declare h (fun empty => ?_) (fun s outer hscopes hs => ?_)
  · subst empty
    exact h' [] (h.quiet h.quiet_top) rfl
  · subst hscopes
    exact h' _ (h.introduce name) rfl

/-- A list of parameters, and what follows it. -/
theorem parameters {ps : List Token} (h : Stands before next place scopes)
    (h' : ∀ after, Stands (before ++ ps.map (⟨place, .declares ·⟩)) next place after →
      after.tail = scopes.tail →
      Follows (f after) (before ++ ps.map (⟨place, .declares ·⟩)) es left) :
    Follows (ps.foldlM Scopes.introduce scopes >>= f) before
      (ps.map (⟨place, .declares ·⟩) ++ es) left := by
  induction ps generalizing before scopes with
  | nil => simpa using h' scopes (by simpa using h) rfl
  | cons p ps ih =>
      rw [List.foldlM_cons, bind_assoc, List.map_cons, List.cons_append]
      refine introduce h fun between hb same => ih hb fun after ha same' => ?_
      simp only [List.map_cons, List.append_assoc, List.singleton_append] at *
      exact h' after ha (same'.trans same)

end Follows

end Resolution

open Resolution

/-- Outside every initializer no variable is pending. -/
theorem Resolution.Stands.owned {before : List Event} {next : Nat} {place : Place}
    {scopes : Scopes} (h : Stands before next place scopes) : Owned none none scopes :=
  fun x => by simp [h.settled.isPending x]

mutual

-- by recursion on the tree: that the scopes stand as the events say is handed on from each part
-- to the next, and the events of a part are numbered from the scopes of those before it
/-- The walk over a statement follows its events. -/
theorem Stmt.follows : ∀ (s : Stmt) {before : List Event} {next : Nat} {place : Place}
    {scopes : Scopes}, Stands before next place scopes →
      Follows (s.resolve scopes) before (s.events place next) fun after =>
        Stands (before ++ s.events place next) (next + s.scopeCount) place after ∧
          after.tail = scopes.tail
  | .expression e, before, next, place, scopes, h
  | .print e, before, next, place, scopes, h =>
      .expression (e.resolve_eq_judgeAll h.owned h.named) ⟨h.quiet e.quiet, rfl⟩
  | .var name initializer, before, next, place, scopes, h => by
      simp only [resolve, events, scopeCount]
      rw [List.append_cons]
      refine .declare h (fun empty => ?_) (fun s outer hscopes new => ?_)
      · subst empty
        have top : Stands (before ++ [⟨place, .declares name⟩]) next place [] :=
          h.quiet h.quiet_top
        refine .expression (Expr.resolveOption_eq_judgeAll (fun x => ?_) top.named)
          ⟨top.quiet (Expr.quietOption initializer), rfl⟩
        rfl
      · subst hscopes
        obtain ⟨hs, -⟩ := List.forall_mem_cons.1 h.settled
        have named : Named (before ++ [⟨place, .declares name⟩]) place.scopes
            (s.add name.lexeme false :: outer) :=
          h.named.declare (List.pairwise_cons.1 h.order).2 fun _ => Scope.declares_add
        refine .expression (Expr.resolveOption_eq_judgeAll (fun x => ?_) named)
          ⟨(h.introduce name).quiet (Expr.quietOption initializer), rfl⟩
        rw [Bool.eq_iff_iff, Bool.or_eq_true, Scopes.isPending_add hs]
        simp [eq_comm (a := x)]
  | .block body, before, next, place, scopes, h => by
      have opened : Stands before (next + 1) (place.block next) scopes.openBlock := by
        rw [Scopes.openBlock, h.inFunction]
        exact h.openScope place.inFunction
      simp only [resolve, events, scopeCount]
      refine .inside (Stmt.followsAll body opened) fun after ⟨ha, same⟩ => ⟨?_, rfl⟩
      have count : next + (Stmt.scopeCountAll body + 1) = next + 1 + Stmt.scopeCountAll body := by
        omega
      rw [count]
      exact ha.closeScope same h.inFunction
  | .branch condition yes none, before, next, place, scopes, h => by
      simp only [resolve, events, scopeCount, ← List.append_assoc]
      exact .after (condition.resolve_eq_judgeAll h.owned h.named)
        (Stmt.follows yes (h.quiet condition.quiet))
  | .branch condition yes (some no), before, next, place, scopes, h => by
      have quiet : Quiet (condition.events place none) := condition.quiet
      have both := (Stmt.follows yes (h.quiet quiet)).append fun between hb =>
        (Stmt.follows no hb.1).mono fun after ha => And.intro ha.1 (ha.2.trans hb.2)
      have all := both.after (condition.resolve_eq_judgeAll h.owned h.named)
      simp only [bind_assoc, pure_bind, List.append_assoc] at all
      simp only [resolve, events, scopeCount, List.append_assoc, ← Nat.add_assoc]
      exact all
  | .loop condition body, before, next, place, scopes, h => by
      simp only [resolve, events, scopeCount, ← List.append_assoc]
      exact .after (condition.resolve_eq_judgeAll h.owned h.named)
        (Stmt.follows body (h.quiet condition.quiet))
  | .function name parameters body, before, next, place, scopes, h => by
      simp only [resolve, events, scopeCount]
      refine .introduce h fun named hn same => ?_
      rw [Scopes.openFunction]
      refine .parameters (hn.openScope true) fun opened ho same' => ?_
      refine .inside (Stmt.followsAll body ho) fun after ⟨ha, same''⟩ => ⟨?_, same⟩
      have count : next + (Stmt.scopeCountAll body + 1) = next + 1 + Stmt.scopeCountAll body := by
        omega
      rw [count, List.append_cons, ← List.append_assoc]
      exact ha.closeScope (same''.trans same') hn.inFunction
  | .ret keyword value, before, next, place, scopes, h => by
      simp only [resolve, events, scopeCount, h.inFunction]
      cases hf : place.inFunction with
      | false =>
          have breaks : Event.fault? before ⟨place, .returns keyword⟩ =
              some (keyword.line, .returnOutsideFunction) := by
            simp [Event.fault?, hf]
          exact .of_fault breaks rfl
      | true =>
          have inside : Stands (before ++ [⟨place, .returns keyword⟩]) next place scopes :=
            h.quiet fun _ _ => rfl
          rw [List.append_cons]
          refine .cons (by simp [Event.fault?, hf]) rfl ?_
          exact .expression (Expr.resolveOption_eq_judgeAll inside.owned inside.named)
            ⟨inside.quiet (Expr.quietOption value), rfl⟩
  | .cls name, before, next, place, scopes, h => by
      simp only [resolve, events, scopeCount]
      refine .introduce h fun after ha same => ?_
      exact .passes rfl rfl ⟨ha, same⟩

/-- The walk over a list of statements. -/
theorem Stmt.followsAll : ∀ (ss : List Stmt) {before : List Event} {next : Nat} {place : Place}
    {scopes : Scopes}, Stands before next place scopes →
      Follows (Stmt.resolveAll scopes ss) before (Stmt.eventsAll place next ss) fun after =>
        Stands (before ++ Stmt.eventsAll place next ss) (next + Stmt.scopeCountAll ss) place after ∧
          after.tail = scopes.tail
  | [], before, next, place, scopes, h =>
      .passes rfl rfl ⟨by simpa [eventsAll, scopeCountAll] using h, rfl⟩
  | s :: ss, before, next, place, scopes, h => by
      simp only [resolveAll, eventsAll, scopeCountAll, ← List.append_assoc, ← Nat.add_assoc]
      exact (Stmt.follows s h).append fun between hb =>
        (Stmt.followsAll ss hb.1).mono fun after ha => ⟨ha.1, ha.2.trans hb.2⟩

end

/-! ## Programs

Nothing comes before a program, and no scope is open. -/

/-- The declarations, accesses and returns in a program. -/
def programEvents (program : List Stmt) : List Event :=
  Stmt.eventsAll {} 0 program

/-- The walk over a program judges its events. -/
theorem resolve_eq_judgeAll (program : List Stmt) :
    resolve program = judgeAll [] (programEvents program) := by
  have start : Stands [] 0 {} [] :=
    ⟨.nil, rfl, List.pairwise_singleton _ _, by simp, by simp [Scopes.Settled]⟩
  unfold resolve programEvents
  cases Stmt.followsAll program start with
  | fails judged step => rw [judged, step]; rfl
  | passes judged step _ => rw [judged, step]; rfl

/-- **The walk computes exactly lexical scoping.**  It accepts the programs that keep the rules and
refuses any other for the first event that breaks one.  The table of a program that is accepted has
for each access what the access denotes, and nothing else. -/
theorem resolve_lexical (program : List Stmt) (distinct : (Stmt.idsAll program).Nodup) :
    ((∃ entries, resolve program = .ok entries) ↔ Lexical (programEvents program)) ∧
      (∀ fault, resolve program = .error fault ↔ ∃ first e rest,
        programEvents program = first ++ e :: rest ∧ Lexical first ∧ Violates first e fault) ∧
      ∀ entries, resolve program = .ok entries →
        (∀ first e rest id name, programEvents program = first ++ e :: rest →
          e.access? = some (id, name) → ∀ distance,
            (Distances.add {} entries)[id]? = some distance ↔ Denotes first e id distance) ∧
        ∀ id distance, (Distances.add {} entries)[id]? = some distance → ∃ first e rest,
          programEvents program = first ++ e :: rest ∧ Denotes first e id distance := by
  rw [resolve_eq_judgeAll]
  refine ⟨lexical_iff_judgeAll.symm, fun fault => ?_, fun entries judged => ?_⟩
  · rw [judgeAll_eq_error]
    simp only [lexical_iff_judgeAll, List.nil_append]
  · have table (id distance : Nat) : (Distances.add {} entries)[id]? = some distance ↔
        ∃ first e rest, programEvents program = first ++ e :: rest ∧
          Denotes first e id distance := by
      have resolved := (resolve_eq_judgeAll program).trans judged
      obtain ⟨⟨after, _⟩, walk, h⟩ := except_bind_eq_ok.1 resolved
      cases except_pure_eq_ok.1 h
      obtain ⟨keys, perm, sub⟩ := Stmt.keys_of_resolveAll program walk
      rw [Distances.getElem?_add (perm.nodup_iff.1 (distinct.sublist sub)) (by simp),
        mem_of_judgeAll judged]
      simp only [List.nil_append]
    have ids : ((accessed (programEvents program)).map Prod.fst).Nodup := by
      unfold programEvents
      rw [((Stmt.accessed_eventsAll program).map _).nodup_iff, List.map_map]
      exact distinct
    refine ⟨fun first e rest id name split access distance => ?_, fun id distance => (table _ _).1⟩
    rw [table]
    refine ⟨?_, fun denotes => ⟨first, e, rest, split, denotes⟩⟩
    rintro ⟨first', e', rest', split', denotes⟩
    obtain ⟨_, access'⟩ := denotes.access
    obtain ⟨rfl, rfl⟩ := eq_of_access ids split split' access access'
    exact denotes

/-- A branch opens no scope: what it declares is a name of the block around it. -/
theorem resolve_lexical_branch : ∃ (x : Token) (program : List Stmt) (entries : List Entry),
    program = [.block [.branch (.literal .nil) (.var x none) none,
      .block [.expression (.read 7 x)]]] ∧
    (Stmt.idsAll program).Nodup ∧ resolve program = .ok entries ∧
    Lexical (programEvents program) ∧
    ∃ first e rest, programEvents program = first ++ e :: rest ∧ Denotes first e 7 1 := by
  let x : Token := ⟨.identifier, "x", 1, ()⟩
  let program : List Stmt := [.block [.branch (.literal .nil) (.var x none) none,
    .block [.expression (.read 7 x)]]]
  have distinct : (Stmt.idsAll program).Nodup := by decide
  have accepted : resolve program = .ok [(7, 1)] := rfl
  obtain ⟨lexical, -, table⟩ := resolve_lexical program distinct
  exact ⟨x, program, _, rfl, distinct, accepted, lexical.1 ⟨_, accepted⟩,
    (table _ accepted).2 7 1 (by simp [Distances.add])⟩

end Lox
