import Mathlib.Data.List.Basic
import Lox.Proofs.Resolution.Scopes

/-!
# Lexical scoping

The rules of lexical scoping for a tree, stated on its declarations, accesses and returns and on
the blocks and functions around them, with no open scopes that a walk would keep.

An event has a place: the numbers of the scopes around it, from the inside, and whether a function
is among them.  Scopes are numbered in the order of the text, so the same scope has the same number
wherever it is seen from, and what is declared in it before an event can be read off the list of the
events before.  The rules are stated on these lists.  `judgeAll` states them once more as a
computation, one event after another, which is what the walk is later compared with.

* `Event`, `Stmt.events` — the declarations, accesses and returns of a tree in the order of the
  walk, each with its place.
* `Lexical` — the three rules that a program has to keep.
* `Violates` — an event that breaks one of them, after the events before it.
* `Denotes` — the scope that an access is bound in, as a distance.
* `judgeAll` — the events judged one after the other.  Its verdict is that of the rules:
  `judgeAll_eq_error`, `lexical_iff_judgeAll` and `mem_of_judgeAll`.
* `Stmt.accessed_events` — the accesses among the events of a tree are those in the tree.
-/

namespace Lox

namespace Resolution

/-! ## Events

A tree is laid out as the list of what happens in it, in the order of the text but for an
assignment, whose value comes before it. -/

/-- Where a node stands.  A block or function is known by the number of those before it. -/
structure Place where
  /-- The blocks and functions around the node, innermost first. -/
  scopes : List Nat := []
  inFunction : Bool := false

/-- The place inside a block that stands here. -/
def Place.block (place : Place) (scope : Nat) : Place :=
  { place with scopes := scope :: place.scopes }

/-- The place inside a function that stands here. -/
def Place.function (place : Place) (scope : Nat) : Place :=
  { scopes := scope :: place.scopes, inFunction := true }

/-- What lexical scoping has a rule for. -/
inductive Act where
  | declares (name : Token)
  /-- A read; `owner?` is the variable, if any, whose initializer it stands in. -/
  | reads (id : NodeId) (name : Token) (owner? : Option String)
  | assigns (id : NodeId) (name : Token)
  | returns (keyword : Token)

/-- A declaration, an access or a return, and its place. -/
structure Event where
  place : Place
  act : Act

end Resolution

open Resolution

mutual

/-- The accesses in an expression: a value before the target it is assigned to. -/
def Expr.events (place : Place) (owner? : Option String) : Expr → List Event
  | .literal _ => []
  | .group inner => inner.events place owner?
  | .unary _ operand => operand.events place owner?
  | .binary left _ right | .logical left _ right =>
    left.events place owner? ++ right.events place owner?
  | .read id name => [⟨place, .reads id name owner?⟩]
  | .assign id name value => value.events place owner? ++ [⟨place, .assigns id name⟩]
  | .call callee _ arguments =>
    callee.events place owner? ++ Expr.eventsAll place owner? arguments
  | .get object _ => object.events place owner?
  | .set object _ value => value.events place owner? ++ object.events place owner?

/-- The accesses in expressions that follow each other. -/
def Expr.eventsAll (place : Place) (owner? : Option String) : List Expr → List Event
  | [] => []
  | e :: es => e.events place owner? ++ Expr.eventsAll place owner? es

end

/-- The accesses in an expression that may be missing. -/
def Expr.eventsOption (place : Place) (owner? : Option String) : Option Expr → List Event
  | some e => e.events place owner?
  | none => []

mutual

/-- How many blocks and functions a statement has. -/
def Stmt.scopeCount : Stmt → Nat
  | .block body | .function _ _ body => Stmt.scopeCountAll body + 1
  | .branch _ yes none => yes.scopeCount
  | .branch _ yes (some no) => yes.scopeCount + no.scopeCount
  | .loop _ body => body.scopeCount
  | .expression _ | .print _ | .var _ _ | .ret _ _ | .cls _ => 0

/-- How many blocks and functions statements that follow each other have. -/
def Stmt.scopeCountAll : List Stmt → Nat
  | [] => 0
  | s :: ss => s.scopeCount + Stmt.scopeCountAll ss

end

mutual

/-- The declarations, accesses and returns in a statement, with `next` blocks and functions before
it.  The parameters and the body of a function are in one scope; a branch or a loop opens none. -/
def Stmt.events (place : Place) (next : Nat) : Stmt → List Event
  | .expression e | .print e => e.events place none
  | .var name initializer =>
    ⟨place, .declares name⟩ :: Expr.eventsOption place (some name.lexeme) initializer
  | .block body => Stmt.eventsAll (place.block next) (next + 1) body
  | .branch condition yes none => condition.events place none ++ yes.events place next
  | .branch condition yes (some no) =>
    condition.events place none ++ yes.events place next ++
      no.events place (next + yes.scopeCount)
  | .loop condition body => condition.events place none ++ body.events place next
  | .function name parameters body =>
    ⟨place, .declares name⟩ ::
      (parameters.map (⟨place.function next, .declares ·⟩) ++
        Stmt.eventsAll (place.function next) (next + 1) body)
  | .ret keyword value => ⟨place, .returns keyword⟩ :: Expr.eventsOption place none value
  | .cls name => [⟨place, .declares name⟩]

/-- The declarations, accesses and returns in statements that follow each other. -/
def Stmt.eventsAll (place : Place) (next : Nat) : List Stmt → List Event
  | [] => []
  | s :: ss => s.events place next ++ Stmt.eventsAll place (next + s.scopeCount) ss

end

namespace Resolution

/-! ## The rules

A program is lexical if no event of it breaks a rule.  Which scope an access is bound in is said by
the events before it. -/

/-- Whether an event declares a name in a block or function.  A declaration outside all of them
is global. -/
def Event.declares (e : Event) (scope : Nat) (x : String) : Bool :=
  match e.act with
  | .declares name => e.place.scopes.head? == some scope && name.lexeme == x
  | _ => false

/-- Whether a block or function has declared a name. -/
def declared (before : List Event) (scope : Nat) (x : String) : Bool :=
  before.any (·.declares scope x)

/-- **The rules of lexical scoping.** -/
structure Lexical (events : List Event) : Prop where
  /-- No return is outside every function. -/
  returns : ∀ e ∈ events, ∀ keyword, e.act = .returns keyword → e.place.inFunction = true
  /-- No name is declared twice in one scope. -/
  declares : events.Pairwise fun e e' => ∀ scope x, e.declares scope x → ¬e'.declares scope x
  /-- No variable is read in its own initializer. -/
  reads : ∀ e ∈ events, ∀ id name owner?, e.act = .reads id name owner? →
    owner? ≠ some name.lexeme

/-- An event breaks a rule, after the events before it; the line is that of its token. -/
inductive Violates (before : List Event) : Event → Fault → Prop
  | returns {place : Place} {keyword : Token} (outside : place.inFunction = false) :
      Violates before ⟨place, .returns keyword⟩ (keyword.line, .returnOutsideFunction)
  | declares {place : Place} {name : Token} {scope : Nat}
      (innermost : place.scopes.head? = some scope)
      (again : declared before scope name.lexeme = true) :
      Violates before ⟨place, .declares name⟩ (name.line, .alreadyDeclared)
  | reads {place : Place} {id : NodeId} {name : Token} :
      Violates before ⟨place, .reads id name (some name.lexeme)⟩
        (name.line, .readInOwnInitializer)

/-- The identity and the name of an access. -/
def Event.access? (e : Event) : Option (NodeId × Token) :=
  match e.act with
  | .reads id name _ | .assigns id name => some (id, name)
  | _ => none

/-- An access is bound in the innermost scope around it that has declared its name; the distance
is the number of scopes around the access inside that one. -/
inductive Denotes (before : List Event) (e : Event) (id : NodeId) : Nat → Prop
  | mk {name : Token} {inner : List Nat} {scope : Nat} {outer : List Nat}
      (access : e.access? = some (id, name))
      (around : e.place.scopes = inner ++ scope :: outer)
      (declares : declared before scope name.lexeme = true)
      (innermost : ∀ scope' ∈ inner, declared before scope' name.lexeme = false) :
      Denotes before e id inner.length

/-- Only an access denotes something. -/
theorem Denotes.access {before : List Event} {e : Event} {id : NodeId} {distance : Nat}
    (h : Denotes before e id distance) : ∃ name, e.access? = some (id, name) := by
  cases h with
  | mk access => exact ⟨_, access⟩

/-! ## Declared names

Whether a scope declares a name after some events. -/

variable {before es fs : List Event} {e : Event} {scope : Nat} {x : String} {fault : Fault}
  {id : NodeId} {distance : Nat}

@[simp]
theorem declared_nil : declared [] scope x = false :=
  rfl

/-- After some events and others after those. -/
@[simp]
theorem declared_append :
    declared (before ++ es) scope x = (declared before scope x || declared es scope x) :=
  List.any_append

@[simp]
theorem declared_cons : declared (e :: es) scope x = (e.declares scope x || declared es scope x) :=
  rfl

/-- A declaration declares its name in the innermost scope around it. -/
theorem declares_declares {place : Place} {name : Token} :
    Event.declares ⟨place, .declares name⟩ scope x = true ↔
      place.scopes.head? = some scope ∧ name.lexeme = x := by
  simp [Event.declares]

/-! ## One event

The rules as they are applied to a single event, after those before it. -/

/-- The rule that an event breaks, after the events before it. -/
def Event.fault? (before : List Event) (e : Event) : Option Fault :=
  match e.act with
  | .declares name =>
    if e.place.scopes.head?.any (declared before · name.lexeme) then
      some (name.line, .alreadyDeclared)
    else none
  | .reads _ name owner? =>
    if owner? == some name.lexeme then some (name.line, .readInOwnInitializer) else none
  | .assigns _ _ => none
  | .returns keyword =>
    if e.place.inFunction then none else some (keyword.line, .returnOutsideFunction)

/-- The entry of an access, after the events before it. -/
def Event.entries (before : List Event) (e : Event) : List Entry :=
  match e.access? with
  | some (id, name) =>
    ((e.place.scopes.findIdx? (declared before · name.lexeme)).map (id, ·)).toList
  | none => []

/-- An event has a fault if it breaks a rule. -/
theorem fault?_eq_some : e.fault? before = some fault ↔ Violates before e fault := by
  constructor
  · intro h
    obtain ⟨place, act⟩ := e
    cases act with
    | declares name =>
        obtain ⟨again, rfl⟩ : _ ∧ (name.line, BindingFault.alreadyDeclared) = fault := by
          simpa only [Event.fault?, Option.ite_none_right_eq_some, Option.some.injEq] using h
        obtain ⟨scope, innermost, again⟩ := (Option.any_eq_true _ _).1 again
        exact .declares innermost again
    | reads id name owner? =>
        obtain ⟨own, rfl⟩ : _ ∧ (name.line, BindingFault.readInOwnInitializer) = fault := by
          simpa only [Event.fault?, Option.ite_none_right_eq_some, Option.some.injEq] using h
        obtain rfl : owner? = some name.lexeme := by simpa using own
        exact .reads
    | assigns id name => cases h
    | returns keyword =>
        obtain ⟨outside, rfl⟩ : _ ∧ (keyword.line, BindingFault.returnOutsideFunction) = fault := by
          simpa only [Event.fault?, Option.ite_none_left_eq_some, Option.some.injEq] using h
        exact .returns (by simpa using outside)
  · intro h
    cases h with
    | returns outside => simp [Event.fault?, outside]
    | declares innermost again => simp [Event.fault?, innermost, again]
    | reads => simp [Event.fault?]

/-- The first of the scopes that has declared a name. -/
theorem findIdx?_declared {scopes : List Nat} :
    scopes.findIdx? (declared before · x) = some distance ↔
      ∃ inner scope outer, scopes = inner ++ scope :: outer ∧ declared before scope x = true ∧
        (∀ scope' ∈ inner, declared before scope' x = false) ∧ inner.length = distance := by
  constructor
  · intro h
    obtain ⟨lt, found, first⟩ := List.findIdx?_eq_some_iff_getElem.1 h
    refine ⟨scopes.take distance, scopes[distance], scopes.drop (distance + 1), ?_, found,
      fun scope' h' => ?_, List.length_take_of_le (Nat.le_of_lt lt)⟩
    · rw [List.getElem_cons_drop, List.take_append_drop]
    · obtain ⟨i, hi, rfl⟩ := List.mem_iff_getElem.1 h'
      rw [List.getElem_take]
      rw [List.length_take] at hi
      simpa using first i (by omega)
  · rintro ⟨inner, scope, outer, rfl, found, innermost, rfl⟩
    rw [List.findIdx?_append, List.findIdx?_eq_none_iff.2 innermost]
    simp [List.findIdx?_cons, found]

/-- An event has an entry if it denotes a scope. -/
theorem mem_entries : (id, distance) ∈ e.entries before ↔ Denotes before e id distance := by
  constructor
  · intro h
    unfold Event.entries at h
    split at h
    next id' name access =>
      obtain ⟨d, first, same⟩ := Option.map_eq_some_iff.1 (Option.mem_toList.1 h)
      cases same
      obtain ⟨inner, scope, outer, around, found, innermost, rfl⟩ := findIdx?_declared.1 first
      exact .mk access around found innermost
    next => cases h
  · rintro ⟨access, around, found, innermost⟩
    simp only [Event.entries, access, Option.mem_toList, Option.map_eq_some_iff]
    exact ⟨_, findIdx?_declared.2 ⟨_, _, _, around, found, innermost, rfl⟩, rfl⟩

/-! ## Events one after the other

A list of events has the entries of all, or the fault of the first that breaks a rule. -/

/-- The entries of events that follow each other, or the first fault in them. -/
def judgeAll (before : List Event) : List Event → Except Fault (List Entry)
  | [] => return []
  | e :: es => do
    if let some fault := e.fault? before then throw fault
    return e.entries before ++ (← judgeAll (before ++ [e]) es)

@[simp]
theorem judgeAll_nil : judgeAll before [] = .ok [] :=
  rfl

/-- The first event breaks a rule. -/
theorem judgeAll_cons_of_fault (h : e.fault? before = some fault) :
    judgeAll before (e :: es) = .error fault := by
  simp only [judgeAll, h]
  rfl

/-- It breaks none, and the others are judged after it. -/
theorem judgeAll_cons (h : e.fault? before = none) : judgeAll before (e :: es) =
    (judgeAll (before ++ [e]) es).map (e.entries before ++ ·) := by
  simp only [judgeAll, h]
  rfl

theorem judgeAll_singleton : judgeAll before [e] =
    match e.fault? before with
    | some fault => .error fault
    | none => .ok (e.entries before) := by
  cases h : e.fault? before with
  | some fault => rw [judgeAll_cons_of_fault h]
  | none => simp [judgeAll_cons h, Except.map]

/-- Two lists, the second judged after the first. -/
theorem judgeAll_append : judgeAll before (es ++ fs) = do
    let first ← judgeAll before es
    return first ++ (← judgeAll (before ++ es) fs) := by
  induction es generalizing before with
  | nil =>
      cases h : judgeAll before fs with
      | error fault => simp [h, bind, Except.bind]
      | ok entries => simp [h, bind, Except.bind, pure, Except.pure]
  | cons e es ih =>
      rw [List.cons_append]
      cases h : e.fault? before with
      | some fault =>
          rw [judgeAll_cons_of_fault h, judgeAll_cons_of_fault h]
          rfl
      | none =>
          rw [judgeAll_cons h, judgeAll_cons h, ih, List.append_assoc, List.singleton_append]
          cases judgeAll (before ++ [e]) es with
          | error fault => rfl
          | ok first =>
              cases judgeAll (before ++ e :: es) fs with
              | error fault => rfl
              | ok second => simp [bind, Except.bind, pure, Except.pure, Except.map]

/-- To split a list with a head is to split it at the head or further on. -/
theorem exists_split_cons {P : List Event → Event → Prop} :
    (∃ first e' rest, e :: es = first ++ e' :: rest ∧ P first e') ↔
      P [] e ∨ ∃ first e' rest, es = first ++ e' :: rest ∧ P (e :: first) e' := by
  constructor
  · rintro ⟨first, e', rest, split, h⟩
    cases first with
    | nil =>
        obtain ⟨rfl, rfl⟩ := List.cons.inj split
        exact .inl h
    | cons e'' first =>
        obtain ⟨rfl, rfl⟩ := List.cons.inj split
        exact .inr ⟨first, e', rest, rfl, h⟩
  · rintro (h | ⟨first, e', rest, rfl, h⟩)
    · exact ⟨[], e, es, rfl, h⟩
    · exact ⟨e :: first, e', rest, rfl, h⟩

theorem judgeAll_cons_eq_ok {entries : List Entry} :
    judgeAll before (e :: es) = .ok entries ↔ e.fault? before = none ∧ ∃ others,
      judgeAll (before ++ [e]) es = .ok others ∧ entries = e.entries before ++ others := by
  cases h : e.fault? before with
  | some fault => simp [judgeAll_cons_of_fault h]
  | none =>
      rw [judgeAll_cons h]
      cases judgeAll (before ++ [e]) es with
      | error fault => simp [Except.map]
      | ok others => simp [Except.map, eq_comm]

theorem judgeAll_cons_eq_error : judgeAll before (e :: es) = .error fault ↔
    e.fault? before = some fault ∨
      e.fault? before = none ∧ judgeAll (before ++ [e]) es = .error fault := by
  cases h : e.fault? before with
  | some fault' => simp [judgeAll_cons_of_fault h]
  | none =>
      rw [judgeAll_cons h]
      cases judgeAll (before ++ [e]) es <;> simp [Except.map]

/-- Events are refused for the first of them that breaks a rule. -/
theorem judgeAll_eq_error : judgeAll before es = .error fault ↔ ∃ first e rest,
    es = first ++ e :: rest ∧ (∃ entries, judgeAll before first = .ok entries) ∧
      Violates (before ++ first) e fault := by
  induction es generalizing before with
  | nil => simp
  | cons e es ih =>
      rw [judgeAll_cons_eq_error, exists_split_cons (e := e), ih]
      refine or_congr ?_ ?_
      · simp [fault?_eq_some]
      · simp only [judgeAll_cons_eq_ok, List.append_assoc, List.singleton_append]
        constructor
        · rintro ⟨h, first, e', rest, split, ⟨others, accepted⟩, violates⟩
          exact ⟨first, e', rest, split, ⟨_, h, others, accepted, rfl⟩, violates⟩
        · rintro ⟨first, e', rest, split, ⟨_, h, others, accepted, rfl⟩, violates⟩
          exact ⟨h, first, e', rest, split, ⟨others, accepted⟩, violates⟩

/-- The entries of events are what they denote. -/
theorem mem_of_judgeAll {entries : List Entry} (h : judgeAll before es = .ok entries) :
    (id, distance) ∈ entries ↔ ∃ first e rest, es = first ++ e :: rest ∧
      Denotes (before ++ first) e id distance := by
  induction es generalizing before entries with
  | nil =>
      cases h
      simp
  | cons e es ih =>
      obtain ⟨-, others, accepted, rfl⟩ := judgeAll_cons_eq_ok.1 h
      rw [exists_split_cons (e := e), List.mem_append, mem_entries, ih accepted]
      simp only [List.append_nil, List.append_assoc, List.singleton_append]

theorem Lexical.nil : Lexical [] :=
  ⟨by simp, .nil, by simp⟩

/-- What is lexical was so before. -/
theorem Lexical.of_append (h : Lexical (es ++ fs)) : Lexical es :=
  ⟨fun e he => h.returns e (List.mem_append_left _ he),
    (List.pairwise_append.1 h.declares).1,
    fun e he => h.reads e (List.mem_append_left _ he)⟩

/-- One event more keeps the rules if it breaks none. -/
theorem Lexical.snoc_iff (h : Lexical before) :
    Lexical (before ++ [e]) ↔ ∀ fault, ¬Violates before e fault := by
  constructor
  · intro h' fault violates
    have last : e ∈ before ++ [e] := List.mem_append_right _ List.mem_cons_self
    cases violates with
    | returns outside => simpa [outside] using h'.returns _ last _ rfl
    | @declares place name scope innermost again =>
        obtain ⟨e', he', first⟩ := List.any_eq_true.1 again
        refine (List.pairwise_append.1 h'.declares).2.2 e' he' _ List.mem_cons_self _ _ first ?_
        exact declares_declares.2 ⟨innermost, rfl⟩
    | reads => exact h'.reads _ last _ _ _ rfl rfl
  · intro lawful
    have either {e' : Event} (he : e' ∈ before ++ [e]) : e' ∈ before ∨ e' = e := by
      simpa using he
    refine ⟨fun e' he keyword act => ?_, List.pairwise_append.2 ⟨h.declares, by simp, ?_⟩,
      fun e' he id name owner? act => ?_⟩
    · rcases either he with he | rfl
      · exact h.returns e' he keyword act
      · obtain ⟨place, _⟩ := e'
        subst act
        by_contra outside
        exact lawful _ (.returns (by simpa using outside))
    · intro e' he e'' he'' scope x first again
      obtain rfl := List.mem_singleton.1 he''
      obtain ⟨place, act⟩ := e''
      cases act with
      | declares name =>
          obtain ⟨innermost, rfl⟩ := declares_declares.1 again
          exact lawful _ (.declares innermost (List.any_eq_true.2 ⟨e', he, first⟩))
      | reads | assigns | returns => simp [Event.declares] at again
    · rcases either he with he | rfl
      · exact h.reads e' he id name owner? act
      · obtain ⟨place, _⟩ := e'
        subst act
        rintro rfl
        exact lawful _ .reads

/-- The rules are kept if no event breaks one after those before it. -/
theorem Lexical.append_iff (h : Lexical before) :
    Lexical (before ++ es) ↔ ∃ entries, judgeAll before es = .ok entries := by
  induction es generalizing before with
  | nil => simpa using h
  | cons e es ih =>
      have accepted : Lexical (before ++ [e]) ↔ e.fault? before = none := by
        rw [h.snoc_iff, Option.eq_none_iff_forall_ne_some]
        exact forall_congr' fun fault => not_congr fault?_eq_some.symm
      simp only [judgeAll_cons_eq_ok]
      rw [List.append_cons]
      constructor
      · intro lexical
        obtain ⟨others, h⟩ := (ih lexical.of_append).1 lexical
        exact ⟨_, accepted.1 lexical.of_append, others, h, rfl⟩
      · rintro ⟨_, hf, others, h, rfl⟩
        exact (ih (accepted.2 hf)).2 ⟨others, h⟩

/-- A program keeps the rules if its events are accepted. -/
theorem lexical_iff_judgeAll : Lexical es ↔ ∃ entries, judgeAll [] es = .ok entries :=
  Lexical.nil.append_iff

end Resolution

/-! ## Accesses

The accesses among the events are those of the tree, though in another order. -/

/-- The accesses among some events. -/
def Resolution.accessed (es : List Event) : List (NodeId × Token) :=
  es.filterMap Event.access?

mutual

/-- The events of an expression have its accesses, in the order of the walk. -/
theorem Expr.accessed_events {place : Place} {owner? : Option String} : ∀ e : Expr,
    (accessed (e.events place owner?)).Perm (e.accesses.map fun a => (a.id, a.name))
  | .literal _ => .refl _
  | .group inner => Expr.accessed_events inner
  | .unary _ operand => Expr.accessed_events operand
  | .binary left _ right | .logical left _ right => by
      simp only [accessed, events, accesses, List.filterMap_append, List.map_append]
      exact (Expr.accessed_events left).append (Expr.accessed_events right)
  | .read _ _ => .refl _
  | .assign _ _ value => by
      simp only [accessed, events, accesses, List.filterMap_append]
      exact (List.perm_append_singleton _ _).trans ((Expr.accessed_events value).cons _)
  | .call callee _ arguments => by
      simp only [accessed, events, accesses, List.filterMap_append, List.map_append]
      exact (Expr.accessed_events callee).append (Expr.accessed_eventsAll arguments)
  | .get object _ => Expr.accessed_events object
  | .set object _ value => by
      simp only [accessed, events, accesses, List.filterMap_append, List.map_append]
      exact List.perm_append_comm.trans
        ((Expr.accessed_events object).append (Expr.accessed_events value))

theorem Expr.accessed_eventsAll {place : Place} {owner? : Option String} : ∀ es : List Expr,
    (accessed (Expr.eventsAll place owner? es)).Perm
      ((Expr.accessesAll es).map fun a => (a.id, a.name))
  | [] => .refl _
  | e :: es => by
      simp only [accessed, eventsAll, accessesAll, List.filterMap_append, List.map_append]
      exact (Expr.accessed_events e).append (Expr.accessed_eventsAll es)

end

theorem Expr.accessed_eventsOption {place : Place} {owner? : Option String} (e? : Option Expr) :
    (accessed (Expr.eventsOption place owner? e?)).Perm
      ((e?.toList.flatMap Expr.accesses).map fun a => (a.id, a.name)) := by
  cases e? with
  | none => exact .refl _
  | some e => simpa [Expr.eventsOption] using e.accessed_events

mutual

/-- The events of a statement have its accesses, in the order of the walk. -/
theorem Stmt.accessed_events {place : Place} : ∀ (s : Stmt) {next : Nat},
    (accessed (s.events place next)).Perm (s.accesses.map fun a => (a.id, a.name))
  | .expression e, next | .print e, next => e.accessed_events
  | .var _ initializer, next => Expr.accessed_eventsOption initializer
  | .block body, next => Stmt.accessed_eventsAll body
  | .branch condition yes none, next => by
      simp only [accessed, events, accesses, List.filterMap_append, List.map_append]
      exact condition.accessed_events.append (Stmt.accessed_events yes)
  | .branch condition yes (some no), next => by
      simp only [accessed, events, accesses, List.filterMap_append, List.map_append]
      exact (condition.accessed_events.append (Stmt.accessed_events yes)).append
        (Stmt.accessed_events no)
  | .loop condition body, next => by
      simp only [accessed, events, accesses, List.filterMap_append, List.map_append]
      exact condition.accessed_events.append (Stmt.accessed_events body)
  | .function name parameters body, next => by
      have quiet : accessed (parameters.map (⟨place.function next, .declares ·⟩)) = [] := by
        simp [accessed, Event.access?]
      simp only [accessed] at quiet
      simp only [accessed, events, accesses, List.filterMap_cons, Event.access?,
        List.filterMap_append, quiet, List.nil_append]
      exact Stmt.accessed_eventsAll body
  | .ret _ value, next => Expr.accessed_eventsOption value
  | .cls _, next => .refl _

theorem Stmt.accessed_eventsAll {place : Place} : ∀ (ss : List Stmt) {next : Nat},
    (accessed (Stmt.eventsAll place next ss)).Perm
      ((Stmt.accessesAll ss).map fun a => (a.id, a.name))
  | [], next => .refl _
  | s :: ss, next => by
      simp only [accessed, eventsAll, accessesAll, List.filterMap_append, List.map_append]
      exact (Stmt.accessed_events s).append (Stmt.accessed_eventsAll ss)

end

section
variable {es first first' rest rest' : List Event} {e e' : Event} {id : NodeId}
  {name name' : Token}

theorem Resolution.id_mem_accessed (h : e ∈ es) (access : e.access? = some (id, name)) :
    id ∈ (accessed es).map Prod.fst :=
  List.mem_map.2 ⟨(id, name), List.mem_filterMap.2 ⟨e, h, access⟩, rfl⟩

/-- An identity that no two accesses share is that of one event. -/
theorem Resolution.eq_of_access (distinct : ((accessed es).map Prod.fst).Nodup)
    (split : es = first ++ e :: rest) (split' : es = first' ++ e' :: rest')
    (access : e.access? = some (id, name)) (access' : e'.access? = some (id, name')) :
    first = first' ∧ e = e' := by
  have apart {e e' : Event} {rest : List Event} {name name' : Token}
      (distinct : ((accessed (e :: rest)).map Prod.fst).Nodup) (h : e' ∈ rest)
      (access : e.access? = some (id, name)) : e'.access? ≠ some (id, name') := by
    intro access'
    simp only [accessed, List.filterMap_cons, access, List.map_cons, List.nodup_cons] at distinct
    exact distinct.1 (id_mem_accessed h access')
  induction first generalizing es first' with
  | nil =>
      cases first' with
      | nil =>
          obtain ⟨rfl, rfl⟩ := List.cons.inj (split.symm.trans split')
          exact ⟨rfl, rfl⟩
      | cons e'' first' =>
          obtain ⟨rfl, rfl⟩ := List.cons.inj (split.symm.trans split')
          subst split
          exact absurd access' (apart distinct (by simp) access)
  | cons e'' first ih =>
      cases first' with
      | nil =>
          obtain ⟨rfl, rfl⟩ := List.cons.inj (split.symm.trans split')
          subst split
          exact absurd access (apart distinct (by simp) access')
      | cons _ first' =>
          obtain ⟨rfl, tail⟩ := List.cons.inj (split.symm.trans split')
          subst split
          have sub : (accessed (first ++ e :: rest)).Sublist
              (accessed (e'' :: (first ++ e :: rest))) :=
            (List.sublist_cons_self _ _).filterMap _
          obtain ⟨rfl, rfl⟩ := ih (distinct.sublist (sub.map _)) rfl tail
          exact ⟨rfl, rfl⟩

end

end Lox
