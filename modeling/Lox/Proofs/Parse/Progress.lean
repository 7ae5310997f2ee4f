import Lox.Proofs.Parse.Induction
import Lox.Proofs.Parse.Position

/-!
# A parse gets on

The loop over the declarations of a program has no count of its own: it ends because each of them
takes a token, whatever the tokens are.  No position is ever left behind, and none goes beyond the
place where reading ends.  The faults are paid for by tokens as well: those recorded and the tokens
still ahead together never become more, although a fault at the end is recorded where nothing is
left to be skipped, for then the declaration has taken a token before.

Three facts are kept apart.  That positions only move forward holds of all rules, also of those that
fail.  That a declaration moves at all holds because each takes a token when it succeeds and because
recovery skips one when it fails.  That faults are paid for is the subtle one: a fault is recorded
before the token that pays for it is skipped, and at the end there is nothing to skip.  It is proved
with a weight, the faults recorded and the tokens ahead, and with a distinction between rules that
may fail at the end without having taken anything and those that have.

* `Position.stop` — where reading ends; `Position.Onward` — positions that can be reached.
* `Position.weight` — the faults recorded and the tokens ahead.
* `Position.Thrifty`, `Position.Pays` — rules that do not add to the weight, and those that take
  away from it when they succeed.
* `parse_progresses` — declarations move on, a parse ends, and it gives no more statements and
  faults than there are tokens.
-/

namespace Lox

namespace Parse

namespace Position

variable {p q r : Position} {c : Cursor} {α β : Type}

/-! ## The tokens ahead

Position and end are numbers, and so is the distance between them.  It is what all counting in this
module is about. -/

/-- How many tokens there are up to the next end token. -/
def ahead (p : Position) : Nat :=
  ((p.tokens.toList.drop p.current).takeWhile isInner).length

/-- Where reading ends: at the next end token, or behind the last token. -/
def stop (p : Position) : Nat :=
  p.current + p.ahead

/-- No position is behind the end. -/
theorem current_le_stop (p : Position) : p.current ≤ p.stop :=
  Nat.le_add_right p.current p.ahead

theorem isAtEnd_iff : p.isAtEnd = true ↔ p.ahead = 0 := by
  rcases Nat.lt_or_ge p.current p.tokens.size with inside | outside
  · rw [isAtEnd_of_lt inside, ahead, drop_current inside, List.takeWhile_cons]
    cases isInner p.peek <;> simp
  · have none : p.tokens.toList.drop p.current = [] :=
      List.drop_eq_nil_of_le (by simpa using outside)
    simp [isAtEnd, outside, ahead, none]

/-- Before it there is one at least. -/
theorem ahead_pos_iff : p.isAtEnd = false ↔ 0 < p.ahead := by
  rw [Nat.pos_iff_ne_zero, ne_eq, ← isAtEnd_iff, Bool.not_eq_true]

/-- At the end there is nowhere to go. -/
theorem advance_of_end (h : p.isAtEnd = true) : p.advance = p := by
  simp only [advance, h, dite_true]

/-- A step before it takes one token and changes nothing else. -/
theorem advance_of_more (h : p.isAtEnd = false) : p.advance.tokens = p.tokens ∧
    p.advance.faults = p.faults ∧ p.advance.current = p.current + 1 := by
  simp only [advance, h, Bool.false_eq_true, dite_false, and_self]

/-- To take a token is to leave one token less. -/
theorem ahead_advance (h : p.isAtEnd = false) : p.advance.ahead + 1 = p.ahead := by
  have inside : p.current < p.tokens.size := current_lt_of_not_isAtEnd (by simp [h])
  have inner : isInner p.peek = true := by simpa [isAtEnd_of_lt inside] using h
  obtain ⟨tokens, -, current⟩ := advance_of_more h
  simp only [ahead, tokens, current, drop_current inside, List.takeWhile_cons, inner, if_true,
    List.length_cons]

/-! ## Positions that can be reached

`Onward` is what any rule does: it goes forward in the same tokens and adds faults at the end of
those recorded.  `Silent` is what a rule does that records none. -/

/-- Another position can be reached: it is not further back, reading ends at the same place, and
the faults recorded are still there. -/
structure Onward (p q : Position) : Prop where
  tokens : q.tokens = p.tokens
  current : p.current ≤ q.current
  stop : q.stop = p.stop
  faults : p.faults.toList <+: q.faults.toList

/-- Another position can be reached without a fault being recorded. -/
structure Silent (p q : Position) : Prop extends Onward p q where
  unchanged : q.faults = p.faults

theorem Onward.refl (p : Position) : p.Onward p :=
  ⟨rfl, Nat.le_refl _, rfl, List.prefix_refl _⟩

theorem Onward.trans (h : p.Onward q) (h' : q.Onward r) : p.Onward r :=
  ⟨h'.tokens.trans h.tokens, Nat.le_trans h.current h'.current, h'.stop.trans h.stop,
    h.faults.trans h'.faults⟩

/-- No position goes beyond the place where reading ends. -/
theorem Onward.current_le (h : p.Onward q) : q.current ≤ p.stop := by
  rw [← h.stop]
  exact q.current_le_stop

/-- The tokens ahead do not become more. -/
theorem Onward.ahead_le (h : p.Onward q) : q.ahead ≤ p.ahead := by
  have current := h.current
  have stop := h.stop
  simp only [Position.stop] at stop
  omega

/-- A position that was reached is further on if fewer tokens are ahead of it. -/
theorem Onward.current_lt (h : p.Onward q) (less : q.ahead < p.ahead) : p.current < q.current := by
  have stop := h.stop
  simp only [Position.stop] at stop
  omega

theorem Silent.refl (p : Position) : p.Silent p :=
  ⟨.refl p, rfl⟩

theorem Silent.trans (h : p.Silent q) (h' : q.Silent r) : p.Silent r :=
  ⟨h.toOnward.trans h'.toOnward, h'.unchanged.trans h.unchanged⟩

theorem Silent.advance (p : Position) : p.Silent p.advance := by
  cases h : p.isAtEnd with
  | true => exact (advance_of_end h).symm ▸ .refl p
  | false =>
      obtain ⟨tokens, faults, current⟩ := advance_of_more h
      have one := ahead_advance h
      refine ⟨⟨tokens, by omega, ?_, faults ▸ List.prefix_refl _⟩, faults⟩
      simp only [Position.stop]
      omega

/-- To give out an identity records nothing. -/
theorem Silent.mint (p : Position) : p.Silent (Reader.mint p).2 :=
  ⟨⟨rfl, Nat.le_refl _, rfl, List.prefix_refl _⟩, rfl⟩

/-- Nor does to skip to the next statement. -/
theorem Silent.toStatement (p : Position) : p.Silent p.toStatement := by
  fun_induction Position.toStatement p with
  | case1 p ends => exact .refl p
  | case2 p more found => exact .refl p
  | case3 p more other ih => exact (Silent.advance p).trans ih

/-- A fault is added behind the others. -/
theorem Onward.record (fault : Fault) (p : Position) :
    p.Onward { p with faults := p.faults.push fault } :=
  ⟨rfl, Nat.le_refl _, rfl, by simp⟩

/-- Recovery records one fault and goes forward. -/
theorem Onward.recover (fault : Fault) (p : Position) : p.Onward (p.recover fault) :=
  (Onward.record fault p).trans
    ((Silent.advance _).trans (Silent.toStatement _)).toOnward

theorem faults_recover (fault : Fault) (p : Position) :
    (p.recover fault).faults = p.faults.push fault :=
  ((Silent.advance _).trans (Silent.toStatement _)).unchanged

/-- Before the end, recovery skips a token. -/
theorem ahead_recover (fault : Fault) (h : p.isAtEnd = false) :
    (p.recover fault).ahead < p.ahead := by
  generalize hr : ({ p with faults := p.faults.push fault } : Position) = recorded
  have more : recorded.isAtEnd = false := by rw [← hr]; exact h
  have same : recorded.ahead = p.ahead := by rw [← hr]; rfl
  have skipped := ahead_advance more
  have left := (Silent.toStatement recorded.advance).ahead_le
  rw [Position.recover, hr]
  omega

/-- **No rule goes back**, nor beyond the place where reading ends. -/
theorem onward : Parser.Recovering (σ := Position) (Parser.Keeps Onward) :=
  Reader.Moves.recovering
    ⟨.refl, .trans, fun p => (Silent.advance p).toOnward, fun p => (Silent.mint p).toOnward⟩
    .recover

/-- Only a declaration records a fault. -/
theorem silent : Parser.Closed (σ := Position) (Parser.Keeps Silent) :=
  Reader.Moves.closed ⟨.refl, .trans, .advance, .mint⟩

/-! ## What the faults are paid with

Every step forward takes one off the weight, every fault puts one on.  A rule is thrifty if it does
not add to the weight when it succeeds, and pays if it takes away from it. -/

/-- The faults recorded and the tokens ahead. -/
def weight (p : Position) : Nat :=
  p.faults.size + p.ahead

/-- Without a fault the weight does not grow. -/
theorem Silent.weight_le (h : p.Silent q) : q.weight ≤ p.weight := by
  have ahead := h.ahead_le
  simp only [weight, h.unchanged]
  omega

/-- A step before the end takes one off. -/
theorem weight_advance (h : p.isAtEnd = false) : p.advance.weight < p.weight := by
  have one := ahead_advance h
  simp only [weight, (advance_of_more h).2.1]
  omega

/-- What is skipped after a fault pays for it, unless there is nothing left to be skipped. -/
theorem weight_recover (fault : Fault) (p : Position) :
    (p.recover fault).weight ≤ p.weight + if p.isAtEnd then 1 else 0 := by
  have recorded : (p.recover fault).faults.size = p.faults.size + 1 := by
    rw [faults_recover, Array.size_push]
  cases h : p.isAtEnd with
  | true =>
      have kept := (Onward.recover fault p).ahead_le
      simp only [weight, if_true]
      omega
  | false =>
      have skipped := ahead_recover fault h
      simp only [weight, Bool.false_eq_true, if_false]
      omega

/-- A rule that does not add to the weight. -/
abbrev Thrifty (rule : Parser Position α) : Prop :=
  rule.Keeps fun p q => q.weight ≤ p.weight

/-- A rule that does not add to the weight, and takes away from it if it succeeds. -/
structure Pays (rule : Parser Position α) : Prop where
  thrifty : Thrifty rule
  paid {p q : Position} {a : α} (h : rule p = .ok a q) : q.weight < p.weight

/-- All rules for expressions are thrifty, and so is every sequence of rules that are. -/
theorem thrifty : Parser.Closed (σ := Position) Thrifty :=
  Reader.Moves.closed ⟨fun _ => Nat.le_refl _, fun h h' => Nat.le_trans h' h,
    fun p => (Silent.advance p).weight_le, fun p => (Silent.mint p).weight_le⟩

/-- A token can only be taken before the end. -/
theorem accept_eq_some {kind : Kind} {t : Token} (h : accept kind p = .ok (some t) q) :
    p.isAtEnd = false ∧ q = p.advance := by
  cases hend : p.isAtEnd with
  | true => simp [accept, acceptAny, Reader.atEnd, hend] at h
  | false =>
      simp only [accept, acceptAny, Reader.atEnd, hend, Bool.false_eq_true, if_false, takeAny] at h
      split at h
      · cases h
        exact ⟨rfl, rfl⟩
      · cases h

namespace Pays

/-- A rule that fails need not pay. -/
theorem fail (fault : SyntaxFault) : Pays (fail fault : Parser Position α) :=
  ⟨Position.thrifty.fail fault, nofun⟩

/-- A token that had to be there has been taken. -/
theorem expect (kind : Kind) (what : Expected) : Pays (expect kind what) := by
  refine ⟨Position.thrifty.expect kind what, fun {p q t} h => ?_⟩
  obtain ⟨found, r, hr, h⟩ := bind_eq_ok.1 h
  cases found with
  | none => cases h
  | some u =>
      cases h
      obtain ⟨more, rfl⟩ := accept_eq_some hr
      exact weight_advance more

variable {x : Parser Position α} {f : α → Parser Position β}

/-- A rule that pays and a thrifty one after it. -/
theorem before (h : Pays x) (hf : ∀ a, Thrifty (f a)) : Pays (x >>= f) := by
  refine ⟨Position.thrifty.bind h.thrifty hf, fun hb => ?_⟩
  obtain ⟨a, r, ha, hb⟩ := bind_eq_ok.1 hb
  exact Nat.lt_of_le_of_lt ((hf a).of_ok hb) (h.paid ha)

/-- A thrifty rule and one that pays after it. -/
theorem behind (h : Thrifty x) (hf : ∀ a, Pays (f a)) : Pays (x >>= f) := by
  refine ⟨Position.thrifty.bind h fun a => (hf a).thrifty, fun hb => ?_⟩
  obtain ⟨a, r, ha, hb⟩ := bind_eq_ok.1 hb
  exact Nat.lt_of_lt_of_le ((hf a).paid hb) (h.of_ok ha)

end Pays

/-- A rule that takes a token pays. -/
theorem pays : Parser.Takes Thrifty Pays :=
  ⟨thrifty, Pays.thrifty, .fail, .expect, .before, .behind⟩

/-! ## Faults at the end

A fault that is found at the end is paid for by the tokens that were taken before it. -/

/-- From this position on the rule fails at the end only with less weight. -/
def Earns (rule : Parser Position α) (p : Position) : Prop :=
  ∀ fault q, rule p = .error fault q → q.isAtEnd = true → q.weight < p.weight

/-- A rule that records no fault fails at the end only behind a token that it took. -/
theorem Earns.of_silent {rule : Parser Position α} (h : rule.Keeps Silent)
    (more : p.isAtEnd = false) : Earns rule p := by
  intro fault q hq ends
  have some := ahead_pos_iff.1 more
  have none := isAtEnd_iff.1 ends
  simp only [weight, (h.of_error hq).unchanged]
  omega

/-- A token that a statement begins with pays for a fault in what follows it. -/
theorem Earns.take {kind : Kind} {f : Option Token → Parser Position α}
    (more : p.isAtEnd = false) (yes : ∀ t, Thrifty (f (some t))) (no : Earns (f none) p) :
    Earns (take kind >>= f) p := by
  intro fault q hq ends
  by_cases seen : p.peek.kind = kind
  · have taken : Parse.take kind p = .ok (some p.peek) p.advance := by
      simp [Parse.take, takeAny, Reader.seen, seen, Reader.advance]
    rw [bind_ok taken] at hq
    exact Nat.lt_of_le_of_lt ((yes _).of_error hq) (weight_advance more)
  · have passed : Parse.take kind p = .ok none p := by
      simp [Parse.take, takeAny, Reader.seen, seen]
    rw [bind_ok passed] at hq
    exact no fault q hq ends

section
variable {statement : Parser Position Stmt} {declaration : Parser Position (Option Stmt)}
  {bound : Nat}

/-- A statement that begins before the end fails at the end only behind a token that it took. -/
theorem earns_statementOf (hs : Thrifty statement)
    (hd : Thrifty (declarations declaration true bound)) (more : p.isAtEnd = false) :
    Earns (statementOf statement declaration bound) p := by
  refine .take more (fun _ => (pays.counting hs bound).thrifty) ?_
  refine .take more (fun _ => (pays.branching hs bound).thrifty) ?_
  refine .take more (fun _ => (pays.looping hs bound).thrifty) ?_
  refine .take more (fun keyword => (pays.returned bound keyword).thrifty) ?_
  refine .take more (fun _ => (pays.printed bound).thrifty) ?_
  refine .take more (fun _ => thrifty.map (pays.block hd).thrifty _) ?_
  exact .of_silent (silent.takes.expressionStatement bound) more

theorem earns_declared (hs : Thrifty statement)
    (hd : Thrifty (declarations declaration true bound)) (more : p.isAtEnd = false) :
    Earns (declared statement declaration bound) p := by
  refine .take more (fun _ => pays.classDeclared.thrifty) ?_
  refine .take more (fun _ => (pays.functionDeclared hd).thrifty) ?_
  refine .take more (fun _ => (pays.variableDeclared bound).thrifty) ?_
  exact earns_statementOf hs hd more

end

/-! ## Declarations

A declaration records its own fault, so it has to pay for that too. -/

/-- Before the end, a declaration comes to an end with less weight by the statement it gives. -/
def Charged (declaration : Parser Position (Option Stmt)) : Prop :=
  ∀ p : Position, p.isAtEnd = false →
    ∃ found q, declaration p = .ok found q ∧ q.weight + found.toList.length ≤ p.weight

section
variable {statement : Parser Position Stmt} {declaration : Parser Position (Option Stmt)}

/-- So do declarations one after another: each statement they give is paid for. -/
theorem Charged.declarations (h : Charged declaration) (braced : Bool) (bound : Nat)
    (p : Position) : ∃ ss q, declarations declaration braced bound p = .ok ss q ∧
      q.weight + ss.length ≤ p.weight := by
  induction bound generalizing p with
  | zero => exact ⟨[], p, rfl, Nat.le_refl _⟩
  | succ bound ih =>
      cases ends : p.isAtEnd with
      | true => exact ⟨[], p, declarations_ended ends, Nat.le_refl _⟩
      | false =>
          rw [declarations_round ends]
          split
          next => exact ⟨[], p, rfl, Nat.le_refl _⟩
          next =>
            obtain ⟨found, q, hq, first⟩ := h p ends
            obtain ⟨ss, r, hr, others⟩ := ih q
            refine ⟨found.toList ++ ss, r, ?_, ?_⟩
            · rw [bind_ok hq, bind_ok hr]
              rfl
            · rw [List.length_append]
              omega

/-- Declarations one after another are thrifty, if each pays for itself. -/
theorem Charged.thrifty (h : Charged declaration) (braced : Bool) (bound : Nat) :
    Thrifty (Parse.declarations declaration braced bound) := by
  intro p
  obtain ⟨ss, q, hq, le⟩ := h.declarations braced bound p
  simp only [Parser.after, hq]
  omega

/-- A fault that is recorded is paid for by what is skipped, or by what was taken before it. -/
theorem charged_declarationOf (hs : Thrifty statement) (hd : Charged declaration) (bound : Nat) :
    Charged (declarationOf statement declaration bound) := by
  intro p more
  have hd := hd.thrifty true bound
  unfold declarationOf recovering
  cases h : declared statement declaration bound p with
  | ok s q => exact ⟨some s, q, rfl, (pays.declared hs hd).paid h⟩
  | error fault q =>
      refine ⟨none, q.recover fault, rfl, ?_⟩
      have recovered := weight_recover fault q
      cases ends : q.isAtEnd with
      | true =>
          have earned := earns_declared hs hd more fault q h ends
          simp only [ends, if_true] at recovered
          exact Nat.le_trans recovered earned
      | false =>
          have kept := (pays.declared hs hd).thrifty.of_error h
          simp only [ends, Bool.false_eq_true, if_false] at recovered
          exact Nat.le_trans recovered kept

end

/-- Both rules, by induction on the bound they share. -/
theorem pays_statement_declaration (bound : Nat) :
    Pays (statement bound : Parser Position Stmt) ∧
      Charged (declaration bound : Parser Position (Option Stmt)) := by
  induction bound with
  | zero => exact ⟨.fail _, fun p _ => ⟨none, p, rfl, Nat.le_refl _⟩⟩
  | succ bound ih =>
      obtain ⟨hs, hd⟩ := ih
      exact ⟨pays.statementOf hs.thrifty (hd.thrifty true _),
        charged_declarationOf hs.thrifty hd _⟩

/-- Before the end every declaration takes a token, also one in which a fault is found. -/
theorem declaration_moves (bound : Nat) (more : p.isAtEnd = false) :
    ∃ found q, declaration (bound + 1) p = .ok found q ∧ p.Onward q ∧ p.current < q.current := by
  obtain ⟨found, q, hq, -⟩ := (pays_statement_declaration (bound + 1)).2 p more
  have reached : p.Onward q := (onward.declaration (bound + 1)).of_ok hq
  refine ⟨found, q, hq, reached, ?_⟩
  refine reached.current_lt ?_
  have hs := (pays_statement_declaration bound).1.thrifty
  have hd := (pays_statement_declaration bound).2.thrifty true (bound + 1)
  simp only [declaration, declarationOf, recovering] at hq
  cases h : declared (statement bound) (declaration bound) (bound + 1) p with
  | ok s r =>
      have paid := (pays.declared hs hd).paid h
      have kept := reached.faults.length_le
      simp only [h, EStateM.Result.ok.injEq] at hq
      obtain ⟨-, rfl⟩ := hq
      simp only [weight, Array.length_toList] at paid kept
      omega
  | error fault r =>
      simp only [h, EStateM.Result.ok.injEq] at hq
      obtain ⟨-, rfl⟩ := hq
      have before : p.Onward r :=
        (onward.declared (onward.statement bound) (onward.declaration bound) (bound + 1)).of_error h
      cases ends : r.isAtEnd with
      | true =>
          have none := isAtEnd_iff.1 ends
          have some := ahead_pos_iff.1 more
          have left : (Reader.recover fault r).ahead ≤ r.ahead := (Onward.recover fault r).ahead_le
          omega
      | false => exact Nat.lt_of_lt_of_le (ahead_recover fault ends) before.ahead_le

/-! ## Programs

At the start nothing is recorded and every token before the end is ahead, so the weight is their
number. -/

section
variable (tokens : List Token) (first : NodeId) (nonempty : 0 < tokens.toArray.size)

/-- The end is where the tokens before the first end token end. -/
theorem stop_before : (before tokens first nonempty).stop = (tokens.takeWhile isInner).length := by
  simp [stop, ahead, before]

theorem weight_before :
    (before tokens first nonempty).weight = (tokens.takeWhile isInner).length := by
  simp [weight, ahead, before]

end

/-- With a bound above the tokens ahead, declarations go on up to the end. -/
theorem declarations_reach_end (inner bound : Nat) (few : p.ahead < bound) {ss : List Stmt}
    (h : declarations (declaration (inner + 1)) false bound p = .ok ss q) : q.isAtEnd = true := by
  induction bound generalizing p ss with
  | zero => exact absurd few (Nat.not_lt_zero _)
  | succ bound ih =>
      cases ends : p.isAtEnd with
      | true =>
          rw [declarations_ended ends] at h
          cases h
          exact ends
      | false =>
          have more : Reader.atEnd p = false := ends
          simp only [declarations_round more, Bool.false_and, Bool.false_eq_true, if_false] at h
          obtain ⟨found, r, hr, reached, moved⟩ := declaration_moves inner ends
          rw [bind_ok hr] at h
          obtain ⟨others, r', hothers, h⟩ := bind_eq_ok.1 h
          cases h
          refine ih ?_ hothers
          have stop := reached.stop
          simp only [Position.stop] at stop
          omega

/-- There is one position that a cursor shows. -/
theorem Onward.eq_of_shows {m n : Nat} (hq : p.Onward q) (hr : p.Onward r) (shows : q.Shows m c)
    (shows' : r.Shows n c) : q = r := by
  have ahead : q.ahead = r.ahead := by rw [ahead, ahead, ← shows.rest, ← shows'.rest]
  have stop : q.stop = r.stop := hq.stop.trans hr.stop.symm
  have current : q.current = r.current := by
    simp only [Position.stop] at stop
    omega
  have tokens : q.tokens = r.tokens := hq.tokens.trans hr.tokens.symm
  have nextNode : q.nextNode = r.nextNode := shows.nextNode.symm.trans shows'.nextNode
  have faults : q.faults = r.faults := shows.faults.symm.trans shows'.faults
  cases q
  cases r
  simp only [Position.mk.injEq]
  exact ⟨tokens, current, nextNode, faults⟩

/-- A bound above the tokens ahead makes no difference. -/
theorem program_eq {n : Nat} (h : p.Shows n c) {bound bound' : Nat} (few : n < bound)
    (few' : n < bound') : program bound p = program bound' p := by
  obtain ⟨ss, q, hq, -⟩ := (pays_statement_declaration bound).2.declarations false bound p
  obtain ⟨ss', r, hr, -⟩ := (pays_statement_declaration bound').2.declarations false bound' p
  have hq : program bound p = .ok ss q := hq
  have hr : program bound' p = .ok ss' r := hr
  have reached := (onward.program bound).of_ok hq
  have reached' := (onward.program bound').of_ok hr
  -- Both are abreast of the parse of the cursor, so they are alike.
  obtain ⟨tt, d, hd, m, -, shows, same⟩ := (paced.program recovers ⟨few, few⟩ h).of_ok hq
  obtain ⟨tt', d', hd', m', -, shows', same'⟩ := (paced.program recovers ⟨few', few⟩ h).of_ok hr
  cases hd.symm.trans hd'
  simp only [Stmt.map_relabel_id] at same same'
  rw [hq, hr, same, same', reached.eq_of_shows reached' shows shows']

end Position

end Parse

open Parse

variable (tokens : List Token) (first : NodeId) (nonempty : 0 < tokens.toArray.size)

/-- A parse is the program rule from the start. -/
theorem parse_of_program {ss : List Stmt} {q : Position}
    (h : program (tokens.length + 1) (Position.before tokens first nonempty) = .ok ss q) :
    parse tokens first = ⟨ss, q.faults.toList, q.nextNode⟩ := by
  unfold Position.before at h
  simp only [parse, nonempty, dite_true, h]

/-- The program before a list of tokens is read up to its end, and any bound above the number of
tokens up to there does for it. -/
theorem program_before : ∃ ss q, (∀ bound, (tokens.takeWhile isInner).length < bound →
      program bound (Position.before tokens first nonempty) = .ok ss q) ∧
    q.isAtEnd = true ∧ q.weight + ss.length ≤ (tokens.takeWhile isInner).length := by
  have few := length_inner_lt tokens
  have charged := (Position.pays_statement_declaration (tokens.length + 1)).2
  obtain ⟨ss, q, hq, paid⟩ :=
    charged.declarations false (tokens.length + 1) (Position.before tokens first nonempty)
  have ahead : (Position.before tokens first nonempty).ahead = (tokens.takeWhile isInner).length :=
    rfl
  refine ⟨ss, q, fun bound enough => ?_, ?_, ?_⟩
  · rw [Position.program_eq (Position.shows_before tokens first nonempty) enough few]
    exact hq
  · exact Position.declarations_reach_end tokens.length _ (ahead ▸ few) hq
  · rwa [Position.weight_before] at paid

/-- **A parse gets on, whatever the tokens are.**  Every declaration that is read before the end
takes a token, also one in which a fault is found.  No rule and no step of the reader goes back, or
beyond the first end token or the end of the list.  A parse ends: there are statements and a
position with nothing left to take that it comes to with any bound that is large enough.  And there
are no more statements and faults than tokens before the end. -/
theorem parse_progresses :
    (∀ (bound : Nat) (p : Position), p.isAtEnd = false → ∃ found q,
      declaration (bound + 1) p = .ok found q ∧ p.current < q.current ∧ q.current ≤ p.stop) ∧
    (∀ (bound : Nat) (fault : Fault) (p : Position),
      p.Onward p.advance ∧ p.Onward (p.recover fault) ∧
      p.Onward (Parser.after (expression bound) p) ∧ p.Onward (Parser.after (statement bound) p) ∧
      p.Onward (Parser.after (declaration bound) p) ∧ p.Onward (Parser.after (program bound) p)) ∧
    ∀ (tokens : List Token) (first : NodeId),
      (∀ nonempty, ∀ p, (Position.before tokens first nonempty).Onward p →
        p.current ≤ (tokens.takeWhile isInner).length) ∧
      (∀ nonempty, ∃ ss q,
        (∀ bound, (tokens.takeWhile isInner).length < bound →
          program bound (Position.before tokens first nonempty) = .ok ss q) ∧
        q.isAtEnd = true ∧ parse tokens first = ⟨ss, q.faults.toList, q.nextNode⟩) ∧
      (parse tokens first).statements.length + (parse tokens first).faults.length ≤
        (tokens.takeWhile isInner).length := by
  refine ⟨fun bound p more => ?_, fun bound fault p => ?_, fun tokens first => ⟨?_, ?_, ?_⟩⟩
  · obtain ⟨found, q, hq, reached, moved⟩ := Position.declaration_moves bound more
    exact ⟨found, q, hq, moved, reached.current_le⟩
  · have onward := Position.onward
    exact ⟨(Position.Silent.advance p).toOnward, Position.Onward.recover fault p,
      onward.expression bound p, onward.statement bound p, onward.declaration bound p,
      onward.program bound p⟩
  · intro nonempty p reached
    rw [← Position.stop_before tokens first nonempty]
    exact reached.current_le
  · intro nonempty
    obtain ⟨ss, q, same, ends, -⟩ := program_before tokens first nonempty
    have done := same _ (length_inner_lt tokens)
    exact ⟨ss, q, same, ends, parse_of_program tokens first nonempty done⟩
  · by_cases nonempty : 0 < tokens.toArray.size
    · obtain ⟨ss, q, same, -, paid⟩ := program_before tokens first nonempty
      rw [parse_of_program tokens first nonempty (same _ (length_inner_lt tokens))]
      simp only [Position.weight, Array.length_toList] at paid ⊢
      omega
    · have none : tokens = [] := by simpa using nonempty
      subst none
      exact Nat.le_refl 0

/-- In `{ + print ;` there is a fault at the plus, one at the semicolon, and one at the end, where
the block is not closed: three for four tokens. -/
theorem parse_progresses_unclosed_block :
    let lbrace : Token := ⟨.symbol .leftBrace, "\x7b", 1, ()⟩
    let plus : Token := ⟨.symbol .plus, "+", 1, ()⟩
    let print : Token := ⟨.keyword .print, "print", 1, ()⟩
    let stop : Token := ⟨.symbol .semicolon, ";", 1, ()⟩
    let tokens := [lbrace, plus, print, stop]
    let start := Position.before tokens 0 (by decide)
    (∃ found q, declaration 5 start = .ok found q ∧ 0 < q.current ∧ q.current ≤ 4) ∧
      start.advance.current ≤ 4 ∧ program 5 start = program 9 start ∧
      (parse tokens 0).faults =
        [(1, .expected .expression), (1, .expected .expression), (1, .expected .blockEnd)] ∧
      (parse tokens 0).statements.length + (parse tokens 0).faults.length ≤ 4 := by
  intro lbrace plus print stop tokens start
  obtain ⟨moves, onward, wholes⟩ := parse_progresses
  obtain ⟨inside, ends, few⟩ := wholes tokens 0
  obtain ⟨ss, q, same, -, -⟩ := ends (by decide)
  have advanced : start.Onward start.advance := (onward 0 (1, .expected .expression) start).1
  have faults : (parse tokens 0).faults =
      [(1, .expected .expression), (1, .expected .expression), (1, .expected .blockEnd)] := by
    rw [parse_eq]
    rfl
  refine ⟨moves 4 start rfl, inside _ _ advanced, ?_, faults, few⟩
  rw [same 5 (by decide), same 9 (by decide)]

end Lox
