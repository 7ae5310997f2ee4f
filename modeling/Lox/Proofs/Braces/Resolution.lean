import Lox.Proofs.Likeness.Resolved
import Lox.Proofs.Resolution.Abreast
import Lox.Proofs.Resolution.Walk

/-!
# The walk over a program with extra braces

Braces are put around statements of a program that declare no name.  Each of them opens a scope that
stays empty, so every name is declared by the same scope as before; only the distance to it counts
the empty scopes on the way.

Since the scopes of extra braces stay empty, nothing has to be said about what is in them.  The open
scopes of the second program are those of the first with empty ones in between, and `Level` lists
where.  A name is then found in the same scope, at a distance that is larger by the empty scopes
passed, and the walk refuses or accepts the same declarations.  The accesses of expressions are
compared afterwards, where the distances are looked up.

* `Stmt.Braces` — a statement, and the same one with braces around some of the statements in it.
* `Stmt.braces_braceAt` — braces around the one statement at a place are a case of it.
* `Scopes.Braced` — the open scopes around a place in both programs.
* `Scopes.Braced.found` — every name is found in the same scope.
* `Stmt.Braces.resolve_both` — the walk refuses nothing for the braces, and accepts nothing for
  them.
-/

namespace Lox

open Resolution

/-! ## Trees

Braces may be put around any number of statements, in any places, also around braces.  That is a
relation between trees; the single pair of braces of which one usually speaks is given by a place in
the tree. -/

mutual

/-- The second statement is the first one with braces around it or statements in it that declare
no name; around one statement, several or none. -/
inductive Stmt.Braces : Stmt → Stmt → Prop
  | expression (e : Expr) : Braces (.expression e) (.expression e)
  | print (e : Expr) : Braces (.print e) (.print e)
  | var (name : Token) (initializer : Option Expr) :
      Braces (.var name initializer) (.var name initializer)
  | block {body body'} (h : BracesAll body body') : Braces (.block body) (.block body')
  | ifOnly (condition : Expr) {yes yes'} (h : Braces yes yes') :
      Braces (.branch condition yes none) (.branch condition yes' none)
  | ifElse (condition : Expr) {yes yes' no no'} (hyes : Braces yes yes') (hno : Braces no no') :
      Braces (.branch condition yes (some no)) (.branch condition yes' (some no'))
  | loop (condition : Expr) {body body'} (h : Braces body body') :
      Braces (.loop condition body) (.loop condition body')
  | function (name : Token) (parameters : List Token) {body body'} (h : BracesAll body body') :
      Braces (.function name parameters body) (.function name parameters body')
  | ret (keyword : Token) (value : Option Expr) : Braces (.ret keyword value) (.ret keyword value)
  | cls (name : Token) : Braces (.cls name) (.cls name)
  /-- Braces around the statement. -/
  | around {s s'} (nothing : s.declares = false) (h : Braces s s') : Braces s (.block [s'])

/-- Statements that follow each other, some with braces. -/
inductive Stmt.BracesAll : List Stmt → List Stmt → Prop
  | nil : BracesAll [] []
  | cons {s s' ss ss'} (h : Braces s s') (hs : BracesAll ss ss') :
      BracesAll (s :: ss) (s' :: ss')

end

namespace Stmt

mutual

/-- There may be no braces at all. -/
theorem Braces.refl : ∀ s : Stmt, s.Braces s
  | .expression e => .expression e
  | .print e => .print e
  | .var name initializer => .var name initializer
  | .block body => .block (BracesAll.refl body)
  | .branch condition yes none => .ifOnly condition (Braces.refl yes)
  | .branch condition yes (some no) => .ifElse condition (Braces.refl yes) (Braces.refl no)
  | .loop condition body => .loop condition (Braces.refl body)
  | .function name parameters body => .function name parameters (BracesAll.refl body)
  | .ret keyword value => .ret keyword value
  | .cls name => .cls name

theorem BracesAll.refl : ∀ ss : List Stmt, BracesAll ss ss
  | [] => .nil
  | s :: ss => .cons (Braces.refl s) (BracesAll.refl ss)

end

mutual

/-- Puts braces around the statement at a place in a statement, if there is one that declares no
name.  A place says how to get there: which statement of a body to take, which branch. -/
def braceAt : List Nat → Stmt → Stmt
  | [], s => if s.declares then s else .block [s]
  | n :: place, .block body => .block (braceAllAt n place body)
  | 0 :: place, .branch condition yes no => .branch condition (yes.braceAt place) no
  | _ :: place, .branch condition yes (some no) =>
    .branch condition yes (some (no.braceAt place))
  | _ :: place, .loop condition body => .loop condition (body.braceAt place)
  | n :: place, .function name parameters body =>
    .function name parameters (braceAllAt n place body)
  | _, s => s

/-- Puts braces around the statement at a place in one of the statements. -/
def braceAllAt : Nat → List Nat → List Stmt → List Stmt
  | _, _, [] => []
  | 0, place, s :: ss => s.braceAt place :: ss
  | n + 1, place, s :: ss => s :: braceAllAt n place ss

end

mutual

/-- Braces around one statement, and around no other. -/
theorem braces_braceAt : ∀ (place : List Nat) (s : Stmt), s.Braces (s.braceAt place)
  | [], s => by
      unfold braceAt
      split
      next => exact .refl s
      next nothing => exact .around (Bool.eq_false_iff.2 nothing) (.refl s)
  | n :: place, .block body => .block (bracesAll_braceAllAt n place body)
  | 0 :: place, .branch condition yes none => .ifOnly condition (braces_braceAt place yes)
  | (_ + 1) :: _, .branch condition yes none => .ifOnly condition (.refl yes)
  | 0 :: place, .branch condition yes (some no) =>
      .ifElse condition (braces_braceAt place yes) (.refl no)
  | (_ + 1) :: place, .branch condition yes (some no) =>
      .ifElse condition (.refl yes) (braces_braceAt place no)
  | _ :: place, .loop condition body => .loop condition (braces_braceAt place body)
  | n :: place, .function name parameters body =>
      .function name parameters (bracesAll_braceAllAt n place body)
  | _ :: _, .expression e => .expression e
  | _ :: _, .print e => .print e
  | _ :: _, .var name initializer => .var name initializer
  | _ :: _, .ret keyword value => .ret keyword value
  | _ :: _, .cls name => .cls name

theorem bracesAll_braceAllAt : ∀ (n : Nat) (place : List Nat) (ss : List Stmt),
    BracesAll ss (braceAllAt n place ss)
  | _, _, [] => .nil
  | 0, place, s :: ss => .cons (braces_braceAt place s) (.refl ss)
  | n + 1, place, s :: ss => .cons (.refl s) (bracesAll_braceAllAt n place ss)

end

/-- What stands in braces declares nothing, and neither do the braces. -/
theorem Braces.declares {s s' : Stmt} (h : s.Braces s') : s'.declares = s.declares := by
  cases h with
  | around nothing _ => exact nothing.symm
  | _ => rfl

mutual

theorem Braces.accesses : ∀ {s s' : Stmt}, s.Braces s' → s'.accesses = s.accesses
  | _, _, .expression _ | _, _, .print _ | _, _, .var _ _ | _, _, .ret _ _ | _, _, .cls _ => rfl
  | _, _, .block h | _, _, .function _ _ h => BracesAll.accesses h
  | _, _, .ifOnly condition h => congrArg (condition.accesses ++ ·) (Braces.accesses h)
  | _, _, .ifElse condition hyes hno => by
      simp only [Stmt.accesses, Braces.accesses hyes, Braces.accesses hno]
  | _, _, .loop condition h => congrArg (condition.accesses ++ ·) (Braces.accesses h)
  | _, _, .around _ h => (List.append_nil _).trans (Braces.accesses h)

/-- The accesses in a list are the same. -/
theorem BracesAll.accesses : ∀ {ss ss' : List Stmt}, BracesAll ss ss' →
    Stmt.accessesAll ss' = Stmt.accessesAll ss
  | _, _, .nil => rfl
  | _, _, .cons h hs => by
      simp only [Stmt.accessesAll, Braces.accesses h, BracesAll.accesses hs]

end

mutual

/-- Declarations stay where they are. -/
theorem Braces.shaped : ∀ {s s' : Stmt}, s.Braces s' → s.Shaped → s'.Shaped
  | _, _, .expression _, h | _, _, .print _, h | _, _, .var _ _, h | _, _, .ret _ _, h
  | _, _, .cls _, h => h
  | _, _, .block braces, h | _, _, .function _ _ braces, h => BracesAll.shaped braces h
  | _, _, .ifOnly _ braces, ⟨nothing, h⟩ | _, _, .loop _ braces, ⟨nothing, h⟩ =>
      ⟨braces.declares.trans nothing, Braces.shaped braces h⟩
  | _, _, .ifElse _ yes no, ⟨⟨nothingY, hY⟩, nothingN, hN⟩ =>
      ⟨⟨yes.declares.trans nothingY, Braces.shaped yes hY⟩,
        no.declares.trans nothingN, Braces.shaped no hN⟩
  | _, _, .around _ braces, h => ⟨Braces.shaped braces h, trivial⟩

/-- Declarations are in their places still. -/
theorem BracesAll.shaped : ∀ {ss ss' : List Stmt}, BracesAll ss ss' → Stmt.ShapedAll ss →
    Stmt.ShapedAll ss'
  | _, _, .nil, h => h
  | _, _, .cons braces others, ⟨h, hs⟩ => ⟨Braces.shaped braces h, BracesAll.shaped others hs⟩

end

end Stmt

/-! ## Open scopes

The open scopes of both programs, with the empty ones marked. -/

namespace Resolution

/-- The open scopes around a place in both programs: those of the second one are the same, with
empty scopes in between. -/
inductive Scopes.Braced : List Level → Scopes → Scopes → Prop
  | top : Braced [] [] []
  | shared {levels outer outer'} (s : Scope) (h : Braced levels outer outer') :
      Braced (.shared false :: levels) (s :: outer) (s :: outer')
  | extra {levels scopes scopes'} (h : Braced levels scopes scopes') :
      Braced (.extra :: levels) scopes scopes'.openBlock

namespace Scopes.Braced

variable {levels : List Level} {scopes scopes' : Scopes}

/-- Scopes correspond to themselves. -/
theorem refl : ∀ scopes : Scopes, Braced (Level.plain scopes.length) scopes scopes
  | [] => .top
  | s :: outer => .shared s (refl outer)

/-- A function is around in both or in neither. -/
theorem inFunction (h : Braced levels scopes scopes') : scopes'.inFunction = scopes.inFunction := by
  induction h with
  | top | shared => rfl
  | extra _ ih => exact ih

/-- A block that both programs have. -/
theorem openBlock (h : Braced levels scopes scopes') :
    Braced (.shared false :: levels) scopes.openBlock scopes'.openBlock := by
  rw [Scopes.openBlock, Scopes.openBlock, h.inFunction]
  exact h.shared _

/-- **Every name is found in the same scope**, at the distance that counts the empty ones too. -/
theorem found (h : Braced levels scopes scopes') : Level.Matches levels scopes scopes' := by
  induction h with
  | top => exact fun _ => .inl ⟨rfl, rfl⟩
  | shared s _ ih =>
      intro x
      simp only [distance?_cons]
      by_cases hs : s.declares x
      · exact .inr ⟨0, 0, if_pos hs, if_pos hs, rfl⟩
      · simp only [if_neg hs]
        rcases ih x with ⟨hd, hd'⟩ | ⟨d, d', hd, hd', located⟩
        · exact .inl ⟨by rw [hd, Option.map_none], by rw [hd', Option.map_none]⟩
        · exact .inr ⟨d + 1, d' + 1, by rw [hd, Option.map_some], by rw [hd', Option.map_some],
            by rw [Level.locate, located, Option.map_some]⟩
  | @extra _ _ scopes' _ ih =>
      intro x
      have further : scopes'.openBlock.distance? x = (scopes'.distance? x).map (· + 1) := by
        rw [Scopes.openBlock, distance?_cons]
        exact if_neg Bool.false_ne_true
      rcases ih x with ⟨hd, hd'⟩ | ⟨d, d', hd, hd', located⟩
      · exact .inl ⟨hd, by rw [further, hd', Option.map_none]⟩
      · exact .inr ⟨d, d' + 1, hd, by rw [further, hd', Option.map_some],
          by rw [Level.locate, located, Option.map_some]⟩

/-- Where nothing is pending an empty scope hides nothing that is. -/
theorem pending_settled (h : Braced levels scopes scopes') (settled : scopes.Settled) (x : String) :
    scopes'.isPending x = scopes.isPending x := by
  cases h with
  | top | shared => rfl
  | extra => rw [settled.isPending x]; rfl

/-! ### Declarations

A declaration never stands directly in braces that were added, so the innermost scope is one that
both have. -/

section
variable (h : Braced levels scopes scopes') (placed : Level.innermost? levels = some false)
include h placed

/-- All scopes are closed in both or in neither. -/
theorem isEmpty : scopes'.isEmpty = scopes.isEmpty := by
  cases h with
  | top | shared => rfl
  | extra => cases placed

/-- An initializer is pending in both or in neither. -/
theorem pending_placed (x : String) : scopes'.isPending x = scopes.isPending x := by
  cases h with
  | top | shared => rfl
  | extra => cases placed

/-- A name is made readable in both. -/
theorem define (name : Token) : Braced levels (scopes.define name) (scopes'.define name) := by
  cases h with
  | top => exact .top
  | shared s h => exact .shared _ h
  | extra => cases placed

/-- A name is declared in both, or refused in both. -/
theorem declare (name : Token) :
    Both (Braced levels) (scopes.declare name) (scopes'.declare name) := by
  cases h with
  | top => exact .passes .top
  | shared s h =>
      cases hs : s.declares name.lexeme with
      | true => simpa [Scopes.declare, hs] using .fails _
      | false =>
          rw [declare_cons hs, declare_cons hs]
          exact .passes (.shared _ h)
  | extra => cases placed

/-- So if it is declared and made readable at once. -/
theorem introduce (name : Token) :
    Both (Braced levels) (scopes.introduce name) (scopes'.introduce name) :=
  (h.declare placed name).bind fun _ _ braced => .passes (braced.define placed name)

theorem introduceAll (ps : List Token) : Both (Braced levels)
    (ps.foldlM Scopes.introduce scopes) (ps.foldlM Scopes.introduce scopes') := by
  induction ps generalizing scopes scopes' with
  | nil => exact .passes h
  | cons p ps ih =>
      simp only [List.foldlM_cons]
      exact (h.introduce placed p).bind fun _ _ braced => ih braced

end

/-- The scope of a function is opened in both programs, and may declare the same names in both. -/
theorem openFunction (h : Braced levels scopes scopes') (ps : List Token) :
    Both (Braced (.shared false :: levels)) (scopes.openFunction ps) (scopes'.openFunction ps) :=
  introduceAll (.shared _ h) rfl ps

end Scopes.Braced

end Resolution

/-! ## The walk

Both walks succeed or both fail for the same reason, by recursion on the trees. -/

namespace Stmt

/-- The scopes after a walk over a program, and after one over the program with braces. -/
def Abreast (levels : List Level) (p q : Scopes × List Entry) : Prop :=
  Scopes.Braced levels p.1 q.1 ∧ p.1.Settled

mutual

/-- **The walk refuses a statement with braces just if it refuses the statement**, and for the same
fault.  Directly inside of extra braces there is no declaration. -/
theorem Braces.resolve_both : ∀ {s s' : Stmt} {levels : List Level} {scopes scopes' : Scopes},
    s.Braces s' → s.Shaped → (s.declares = true → Level.innermost? levels = some false) →
    Scopes.Braced levels scopes scopes' → scopes.Settled →
      Both (Abreast levels) (s.resolve scopes) (s'.resolve scopes')
  | _, _, _, _, _, .expression e, _, _, braced, settled
  | _, _, _, _, _, .print e, _, _, braced, settled =>
      (e.resolve_both (braced.pending_settled settled)).bind fun _ _ _ => .passes ⟨braced, settled⟩
  | _, _, _, scopes, scopes', .var name initializer, _, placed, braced, settled => by
      simp only [resolve, braced.isEmpty (placed rfl)]
      refine ((braced.declare (placed rfl) name).and_left fun _ hd => hd).bind
        fun declared declared' ⟨inner, hd⟩ => ?_
      refine (Expr.resolveOption_both (inner.pending_placed (placed rfl)) initializer).bind
        fun _ _ _ => .passes ⟨inner.define (placed rfl) name, ?_⟩
      exact settled.introduce (Scopes.introduce_eq_ok_iff.2 ⟨declared, hd, rfl⟩)
  | _, _, _, _, _, .block braces, shaped, _, braced, settled =>
      (BracesAll.resolve_both braces shaped rfl braced.openBlock settled.openBlock).bind
        fun _ _ _ => .passes ⟨braced, settled⟩
  | _, _, _, _, _, .ifOnly condition braces, ⟨nothing, shaped⟩, _, braced, settled
  | _, _, _, _, _, .loop condition braces, ⟨nothing, shaped⟩, _, braced, settled =>
      (condition.resolve_both (braced.pending_settled settled)).bind fun _ _ _ =>
        (Braces.resolve_both braces shaped (by simp [nothing]) braced settled).bind
          fun _ _ h => .passes h
  | _, _, _, _, _, .ifElse condition yes no, ⟨⟨nothingY, shapedY⟩, nothingN, shapedN⟩, _, braced,
      settled =>
      (condition.resolve_both (braced.pending_settled settled)).bind fun _ _ _ =>
        (Braces.resolve_both yes shapedY (by simp [nothingY]) braced settled).bind fun _ _ hy =>
          (Braces.resolve_both no shapedN (by simp [nothingN]) hy.1 hy.2).bind
            fun _ _ h => .passes h
  | _, _, _, _, _, .function name parameters braces, shaped, placed, braced, settled =>
      ((braced.introduce (placed rfl) name).and_left fun _ hi => settled.introduce hi).bind
        fun _ _ ⟨named, settled⟩ => ((named.openFunction parameters).and_left
          fun _ ho => settled.openFunction ho).bind fun _ _ ⟨opened, inside⟩ =>
            (BracesAll.resolve_both braces shaped rfl opened inside).bind fun _ _ _ =>
              .passes ⟨named, settled⟩
  | _, _, levels, scopes, scopes', .ret keyword value, _, _, braced, settled => by
      have returned : Both (Abreast levels)
          (do return (scopes, ← Expr.resolveOption none scopes value))
          (do return (scopes', ← Expr.resolveOption none scopes' value)) :=
        (Expr.resolveOption_both (braced.pending_settled settled) value).bind fun _ _ _ =>
          .passes ⟨braced, settled⟩
      simp only [resolve, braced.inFunction]
      cases scopes.inFunction with
      | false => exact .fails _
      | true => exact returned
  | _, _, _, _, _, .cls name, _, placed, braced, settled =>
      ((braced.introduce (placed rfl) name).and_left fun _ hi => settled.introduce hi).bind
        fun _ _ h => .passes h
  | s, _, _, scopes, _, .around nothing braces, shaped, _, braced, settled => by
      -- the first program stays in its scopes, the second one opens a scope and leaves it
      have inside := (Braces.resolve_both braces shaped (by simp [nothing]) braced.extra
        settled).and_left fun p hp => s.after_of_resolve shaped nothing hp
      rw [← bind_pure (s.resolve scopes)]
      simp only [resolve, resolveAll, bind_assoc, pure_bind]
      refine inside.bind fun p _ ⟨_, same⟩ => .passes ⟨?_, ?_⟩
      · rw [same]
        exact braced
      · rw [same]
        exact settled

/-- The same for lists of statements. -/
theorem BracesAll.resolve_both : ∀ {ss ss' : List Stmt} {levels : List Level}
    {scopes scopes' : Scopes}, BracesAll ss ss' → Stmt.ShapedAll ss →
    Level.innermost? levels = some false → Scopes.Braced levels scopes scopes' →
    scopes.Settled →
      Both (Abreast levels) (Stmt.resolveAll scopes ss) (Stmt.resolveAll scopes' ss')
  | _, _, _, _, _, .nil, _, _, braced, settled => .passes ⟨braced, settled⟩
  | _, _, _, _, _, .cons braces others, ⟨shaped, shapedAll⟩, placed, braced, settled =>
      (Braces.resolve_both braces shaped (fun _ => placed) braced settled).bind fun _ _ hs =>
        (BracesAll.resolve_both others shapedAll placed hs.1 hs.2).bind fun _ _ h => .passes h

end

end Stmt

end Lox
