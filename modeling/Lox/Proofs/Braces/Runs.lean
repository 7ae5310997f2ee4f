import Lox.Proofs.Braces.Resolution
import Lox.Proofs.Likeness.Sessions
import Lox.Proofs.Session.Reachable

/-!
# Extra braces change nothing

A program is read and resolved, and braces are put around some of its statements.  The walk accepts
it with the braces and gives every access that reaches out of them to a local a larger distance.  In
the run of the second program, each execution of such braces makes an empty frame, which lies in the
chains of all functions that are made inside.  The larger distances step over those frames.

Braces are put around statements that declare nothing, so that no name moves into the new scope; an
access from inside still finds each name in the frame where it was, one further out.  Both programs
are resolved by the same walk, and the likeness of their trees is read off the two resolutions.

* `Likeness.bracing` — what the two programs differ in.
* `Stmt.Braces.like_relabel` — a statement with braces means the same.
* `braces_change_nothing` — **the two programs do the same**.
-/

namespace Lox

open Resolution

/-! ## Likeness

Names and lines are the same in the two programs; their tables differ where an access reaches out of
added braces. -/

/-- The programs differ in braces, and so in the distances of their accesses. -/
def Likeness.bracing (left right : Distances) : Likeness where
  lines := Eq
  rename := id
  injective _ _ h := h
  left := left
  right := right
  braces := true
  accesses _ _ _ _ := True

section
variable {l l' : Ledger}

theorem Likeness.plain_bracing :
    Likeness.Plain (.bracing l.distances l'.distances) l l' id id :=
  ⟨rfl, rfl, fun _ => rfl, fun _ _ _ _ _ => trivial⟩

/-- An expression has no braces in it. -/
theorem Expr.like_bracing (ids : NodeId → NodeId) {levels : List Level} {scopes scopes' : Scopes}
    (braced : Scopes.Braced levels scopes scopes') {e : Expr}
    (h : (e.relabel ids id).Resolved l scopes) (h' : e.Resolved l' scopes') :
    Expr.Like (.bracing l.distances l'.distances) levels (e.relabel ids id) e := by
  have same : e.relabel (fun _ => 0) id = (e.relabel ids id).relabel (fun _ => 0) id :=
    (Expr.relabel_relabel ids (fun _ => 0) id id e).symm
  have like := Expr.like_of_same Likeness.plain_bracing braced.found _ same h h'
  rwa [Expr.relabel_id] at like

theorem Expr.likeOption_bracing (ids : NodeId → NodeId) {levels : List Level}
    {scopes scopes' : Scopes} (braced : Scopes.Braced levels scopes scopes') {e : Option Expr}
    (h : ∀ x ∈ e.map (Expr.relabel ids id), x.Resolved l scopes)
    (h' : ∀ x ∈ e, x.Resolved l' scopes') :
    Expr.LikeOption (.bracing l.distances l'.distances) levels (e.map (Expr.relabel ids id)) e := by
  cases e with
  | none => exact .none
  | some e => exact .some (Expr.like_bracing ids braced (h _ rfl) (h' e rfl))

theorem Token.likeName_bracing {left right : Distances} {levels : List Level} (t : Token)
    (placed : Level.innermost? levels = some false) :
    t.LikeName (.bracing left right) levels t :=
  ⟨⟨rfl, rfl⟩, false, placed, rfl⟩

namespace Stmt

mutual

/-- **A statement with braces means the same**, under whichever identities.  Inside of extra braces
there is one level more, with the empty scope that the walk over the second program has opened
there. -/
theorem Braces.like_relabel (ids : NodeId → NodeId) : ∀ {s s' : Stmt} {levels : List Level}
    {scopes scopes' after after' : Scopes}, s.Braces s' → s.Shaped →
    (s.declares = true → Level.innermost? levels = some false) →
    Scopes.Braced levels scopes scopes' → (s.relabel ids id).Resolved l scopes after →
    s'.Resolved l' scopes' after' →
      Stmt.Like (.bracing l.distances l'.distances) levels (s.relabel ids id) s' ∧
        Scopes.Braced levels after after'
  | _, _, _, _, _, _, _, .expression _, _, _, braced, ⟨h, rfl⟩, ⟨h', rfl⟩ =>
      ⟨.expression (Expr.like_bracing ids braced h h'), braced⟩
  | _, _, _, _, _, _, _, .print _, _, _, braced, ⟨h, rfl⟩, ⟨h', rfl⟩ =>
      ⟨.print (Expr.like_bracing ids braced h h'), braced⟩
  | _, _, _, _, _, _, _, .var name _, _, placed, braced, ⟨_, hd, h, rfl⟩, ⟨_, hd', h', rfl⟩ => by
      obtain ⟨declared', hd'', inner⟩ := (braced.declare (placed rfl) _).ok_right hd
      cases hd''.symm.trans hd'
      have he := Expr.likeOption_bracing ids inner h h'
      exact ⟨.var (placed rfl) ⟨rfl, rfl⟩ he, inner.define (placed rfl) _⟩
  | _, _, _, _, _, _, _, .block braces, shaped, _, braced, ⟨⟨_, h⟩, rfl⟩, ⟨⟨_, h'⟩, rfl⟩ =>
      ⟨.block (BracesAll.like_relabel ids braces shaped rfl braced.openBlock h h').1, braced⟩
  | _, _, _, _, _, _, _, .ifOnly _ braces, ⟨nothing, shaped⟩, _, braced, ⟨hc, hy, rfl⟩,
      ⟨hc', hy', rfl⟩ => by
      have like := (Braces.like_relabel ids braces shaped (by simp [nothing]) braced hy hy').1
      exact ⟨.ifOnly (Expr.like_bracing ids braced hc hc') like, braced⟩
  | _, _, _, _, _, _, _, .ifElse _ yes no, ⟨⟨nothingY, shapedY⟩, nothingN, shapedN⟩, _, braced,
      ⟨hc, hy, hn, rfl⟩, ⟨hc', hy', hn', rfl⟩ => by
      have likeY := (Braces.like_relabel ids yes shapedY (by simp [nothingY]) braced hy hy').1
      have likeN := (Braces.like_relabel ids no shapedN (by simp [nothingN]) braced hn hn').1
      exact ⟨.ifElse (Expr.like_bracing ids braced hc hc') likeY likeN, braced⟩
  | _, _, _, _, _, _, _, .loop _ braces, ⟨nothing, shaped⟩, _, braced, ⟨hc, hb, rfl⟩,
      ⟨hc', hb', rfl⟩ => by
      have like := (Braces.like_relabel ids braces shaped (by simp [nothing]) braced hb hb').1
      exact ⟨.loop (Expr.like_bracing ids braced hc hc') like, braced⟩
  | _, _, _, _, _, _, _, .function name parameters braces, shaped, placed, braced,
      ⟨hname, _, _, ho, h⟩, ⟨hname', _, _, ho', h'⟩ => by
      have unchanged : parameters.map (Token.mapLine id) = parameters := List.map_id parameters
      rw [unchanged] at ho
      obtain ⟨_, hname'', braced'⟩ := (braced.introduce (placed rfl) _).ok_right hname
      cases hname''.symm.trans hname'
      obtain ⟨_, ho'', inner⟩ := (braced'.openFunction _).ok_right ho
      cases ho''.symm.trans ho'
      have like := (BracesAll.like_relabel ids braces shaped rfl inner h h').1
      have same := List.forall₂_same.2 fun (t : Token) (_ : t ∈ parameters) =>
        (⟨rfl, rfl⟩ : t.Like (.bracing l.distances l'.distances) false t)
      rw [Stmt.relabel, unchanged]
      exact ⟨.function (name.likeName_bracing (placed rfl)) same like, braced'⟩
  | _, _, _, _, _, _, _, .ret _ _, _, _, braced, ⟨_, h, rfl⟩, ⟨_, h', rfl⟩ =>
      ⟨.ret ⟨rfl, rfl⟩ (Expr.likeOption_bracing ids braced h h'), braced⟩
  | _, _, _, _, _, _, _, .cls name, _, placed, braced, h, h' => by
      obtain ⟨_, h'', braced'⟩ := (braced.introduce (placed rfl) _).ok_right h
      cases h''.symm.trans h'
      exact ⟨.cls (name.likeName_bracing (placed rfl)), braced'⟩
  | s, _, _, _, _, _, _, .around nothing braces, shaped, _, braced, h,
      ⟨⟨_, _, h', _⟩, rfl⟩ => by
      have like := (Braces.like_relabel ids braces shaped (by simp [nothing]) braced.extra h h').1
      rw [Stmt.Resolved.after_of_not_declares h ((s.declares_relabel ids id).trans nothing)]
      exact ⟨.braces rfl like, braced⟩

theorem BracesAll.like_relabel (ids : NodeId → NodeId) : ∀ {ss ss' : List Stmt}
    {levels : List Level} {scopes scopes' after after' : Scopes}, BracesAll ss ss' →
    Stmt.ShapedAll ss → Level.innermost? levels = some false →
    Scopes.Braced levels scopes scopes' →
    Stmt.ResolvedAll l scopes (Stmt.relabelAll ids id ss) after →
    Stmt.ResolvedAll l' scopes' ss' after' →
      Stmt.LikeAll (.bracing l.distances l'.distances) levels (Stmt.relabelAll ids id ss) ss' ∧
        Scopes.Braced levels after after'
  | _, _, _, _, _, _, _, .nil, _, _, braced, rfl, rfl => ⟨.nil, braced⟩
  | _, _, _, _, _, _, _, .cons braces others, ⟨shaped, shapedAll⟩, placed, braced, ⟨_, h, hs⟩,
      ⟨_, h', hs'⟩ => by
      obtain ⟨like, between⟩ := Braces.like_relabel ids braces shaped (fun _ => placed) braced h h'
      obtain ⟨likes, braced'⟩ := BracesAll.like_relabel ids others shapedAll placed between hs hs'
      exact ⟨.cons like likes, braced'⟩

end

theorem BracesAll.like {ss ss' : List Stmt} {levels : List Level}
    {scopes scopes' after after' : Scopes} (braces : BracesAll ss ss') (shaped : Stmt.ShapedAll ss)
    (placed : Level.innermost? levels = some false) (braced : Scopes.Braced levels scopes scopes')
    (h : Stmt.ResolvedAll l scopes ss after) (h' : Stmt.ResolvedAll l' scopes' ss' after') :
    Stmt.LikeAll (.bracing l.distances l'.distances) levels ss ss' ∧
      Scopes.Braced levels after after' := by
  rw [← Stmt.relabelAll_id ss] at h
  have like := braces.like_relabel id shaped placed braced h h'
  rwa [Stmt.relabelAll_id] at like

end Stmt

end

/-! ## Programs

In new sessions, where nothing was made yet. -/

/-- Programs that differ in braces stop for the same reason. -/
theorem Stop.Like.eq {left right : Distances} {stop stop' : Stop}
    (h : Stop.Like (.bracing left right) stop stop') : stop' = stop := by
  cases h with
  | exhausted => rfl
  | @runtime line _ fault lines _ =>
      obtain rfl : line = _ := lines
      rfl
  | output fault => rfl
  | undefined access =>
      obtain ⟨lines, lexeme⟩ := access.lexeme_eq fun _ => rfl
      have line : _ = _ := lines
      rw [lexeme, line]

/-- Programs that differ in braces come to the same end. -/
theorem Outcome.Like.eq {left right : Distances} {o o' : Outcome Unit}
    (h : Outcome.Like (.bracing left right) o o') : o' = o := by
  cases h with
  | done => rfl
  | exhausted => rfl
  | failed h =>
      obtain rfl := Stop.failed.inj h.eq
      rfl

/-- **Extra braces change nothing.**  A source is read and resolved in a new session, and braces are
put around statements of its program that declare no name, around one or any number of them.  The
walk accepts the program with the braces.  Within every bound it prints the same, and ends with the
same error, or with none, or uses the bound up just if the program without the braces does. -/
theorem braces_change_nothing {clock : Nat → Float} {sink : Sink} {source : String}
    {program program' : List Stmt} {s : Session} {entries : List Entry}
    (hread : (Session.initial clock sink).read source = (.done program, s))
    (hresolve : resolve program = .ok entries) (braces : Stmt.BracesAll program program') :
    ∃ entries', resolve program' = .ok entries' ∧ ∀ bound,
      (s.runProgram bound program').2.machine.sink = (s.runProgram bound program).2.machine.sink ∧
      (s.runProgram bound program').1 = (s.runProgram bound program).1 := by
  obtain ⟨-, faultless, rfl, rfl⟩ := Session.read_eq_done hread
  have shaped := Session.shaped_parsed faultless
  have minted : Parse.Minted (Session.initial clock sink).nextNode _
      (Stmt.idsAll ((Session.initial clock sink).parsed source).statements) :=
    Session.minted_parsed
  generalize ((Session.initial clock sink).parsed source).statements = program at *
  obtain ⟨⟨after, found⟩, walk, hpure⟩ := except_bind_eq_ok.1 hresolve
  obtain rfl : found = entries := except_pure_eq_ok.1 hpure
  obtain ⟨⟨after', entries'⟩, walk', -⟩ :=
    (braces.resolve_both shaped rfl .top (by simp [Scopes.Settled])).ok_right walk
  have hresolve' : resolve program' = .ok entries' := except_bind_eq_ok.2 ⟨_, walk', rfl⟩
  have resolved := Ledger.resolvedAll_add Ledger.tidy_empty minted shaped walk
  -- the accesses are the same, so their identities have been given out
  have minted' := minted
  rw [Stmt.idsAll, ← braces.accesses] at minted'
  have resolved' := Ledger.resolvedAll_add Ledger.tidy_empty minted' (braces.shaped shaped) walk'
  have like := (braces.like shaped rfl .top resolved resolved').1
  refine ⟨entries', hresolve', fun bound => ?_⟩
  have runs := interpret_like bound like (Machine.alike_initial clock sink)
  obtain ⟨outcomes, w, machines⟩ := Session.perform_like _ _ runs
  simp only [Session.runProgram, Session.resolve_of_ok hresolve, Session.resolve_of_ok hresolve',
    Session.interpret]
  exact ⟨machines.sink, outcomes.eq⟩

/-- Braces around a block in which a function is made that keeps a variable of the block outside:
the access in the function reaches out of one scope more, and finds the variable when the function
is called at the end. -/
theorem braces_change_nothing_kept_function :
    ∃ (s : Session) (program : List Stmt),
      (Session.initial (fun _ => 0) {}).read
        "var g; \x7b var a; \x7b fun f() \x7b print a; \x7d g = f; \x7d \x7d g();" =
          (.done program, s) ∧
      resolve program = .ok [(0, 2), (2, 0)] ∧
      resolve (Stmt.braceAllAt 1 [1] program) = .ok [(0, 3), (2, 0)] ∧
      (s.runProgram 9 (Stmt.braceAllAt 1 [1] program)).2.machine.sink =
        (s.runProgram 9 program).2.machine.sink ∧
      (s.runProgram 9 (Stmt.braceAllAt 1 [1] program)).1 = (s.runProgram 9 program).1 := by
  have hread : (Session.initial (fun _ => 0) {}).read
      "var g; \x7b var a; \x7b fun f() \x7b print a; \x7d g = f; \x7d \x7d g();" = _ :=
    Session.read_of_faultless _ (by decide +kernel) (by decide +kernel)
  have hresolve : resolve ((Session.initial (fun _ => 0) {}).parsed
      "var g; \x7b var a; \x7b fun f() \x7b print a; \x7d g = f; \x7d \x7d g();").statements =
        .ok [(0, 2), (2, 0)] := by
    decide +kernel
  have hresolve' : resolve (Stmt.braceAllAt 1 [1] ((Session.initial (fun _ => 0) {}).parsed
      "var g; \x7b var a; \x7b fun f() \x7b print a; \x7d g = f; \x7d \x7d g();").statements) =
        .ok [(0, 3), (2, 0)] := by
    decide +kernel
  obtain ⟨_, -, runs⟩ :=
    braces_change_nothing hread hresolve (Stmt.bracesAll_braceAllAt 1 [1] _)
  exact ⟨_, _, hread, hresolve, hresolve', runs 9⟩

end Lox
