import Lox.Proofs.Parse.Correctness
import Lox.Proofs.Parse.Ending
import Lox.Proofs.Parse.Fence

/-!
# Faults stay where they are

A faulty statement without braces is skipped up to its semicolon, and declarations without a fault
are read the same whatever follows them, as long as it is no `else`.  So what a program is read to
is put together from its parts.

Two things are to be shown of a faulty statement: that its fault is found before its semicolon is
passed, and that recovery then stops at this semicolon and not at an earlier place.  The first is
about two readings at once, of the statement alone and of the statement in front of the rest; a
fence between them marks the semicolon.  For the second the statement must have nothing in it at
which recovery would stop.

The rest is by induction on the pieces of a program.  What a piece is read to does not depend on
what comes after it, so the statements and the faults of the whole are those of the pieces in order.

* `Fence.declaration` — the declaration in which a fault is found, once it has been recorded.
* `Yields` — what tokens are read to as declarations, wherever they stand at the end of a program.
* `Spoilt` — a text whose faults lie before its semicolon.
* `faults_contained` — **a program with faulty statements is read as one without, and their faults
  are reported one each**.
-/

namespace Lox

namespace Parse

/-! ## One faulty declaration

A declaration that fails inside of its tokens is recovered from at the semicolon behind them,
whatever comes later. -/

/-- Recovery goes on behind the next semicolon. -/
theorem afterFault_plain {stop : Token} (isStop : stop.kind = .symbol .semicolon)
    (rest : List Token) {ts : List Token} (plain : ∀ t ∈ ts, isPlain t = true) :
    afterFault (ts ++ stop :: rest) = rest := by
  have skipped {t t' : Token} {rest : List Token} (ht : isPlain t = true)
      (ht' : opensStatement t'.kind = false) :
      afterFault (t :: t' :: rest) = afterFault (t' :: rest) := by
    simp only [isPlain, Bool.and_eq_true, bne_iff_ne, ne_eq] at ht
    exact if_neg (by simp [ht.1.1.1.2, ht'])
  induction ts with
  | nil =>
      cases rest with
      | nil => rfl
      | cons t rest => exact if_pos (.inl isStop)
  | cons t ts ih =>
      have ht := plain t List.mem_cons_self
      have left := ih fun t h => plain t (List.mem_cons_of_mem _ h)
      cases ts with
      | nil => exact (skipped ht (by rw [isStop]; rfl)).trans left
      | cons t' ts =>
          have ht' := plain t' (List.mem_cons_of_mem _ List.mem_cons_self)
          simp only [isPlain, Bool.and_eq_true, Bool.not_eq_true'] at ht'
          exact (skipped ht ht'.2).trans left

namespace Fence

variable (fence : Fence) {first : Option Token} {ts : List Token} {b b' : Nat}

/-- The first side, with tokens before the semicolon. -/
def near (ts : List Token) (line : Nat) (i : NodeId) : Cursor :=
  ⟨ts ++ [fence.semicolon], line, i, fence.faults'⟩

/-- The second side, with tokens before the semicolon. -/
def far (ts : List Token) (i : NodeId) : Cursor :=
  ⟨ts ++ fence.semicolon :: fence.behind, fence.line, i, fence.faults⟩

/-- If the declaration is faulty when nothing follows it, then the same fault is recorded whatever
follows, and all that follows is left to be read. -/
theorem declaration (leading : ∀ t ∈ first, t.kind ∈ leadingKinds)
    (plain : ∀ t ∈ ts, isPlain t = true) (enough : Enough b b' (ts.length + 1)) (line : Nat)
    (i j : NodeId) :
    (∃ s d, Parse.declaration b' (fence.near (first.toList ++ ts) line j) = .ok (some s) d ∧
      d.rest = [] ∧ d.faults = fence.faults') ∨
    ∃ fault d i', Parse.declaration b' (fence.near (first.toList ++ ts) line j) = .ok none d ∧
      d.rest = [] ∧ d.faults = fence.faults'.push fault ∧
      Parse.declaration b (fence.far (first.toList ++ ts) i) =
        .ok none ⟨fence.behind, fence.line, i', fence.faults.push fault⟩ := by
  obtain ⟨b, rfl⟩ := Nat.exists_eq_add_one_of_ne_zero (Nat.ne_zero_of_lt enough.1)
  obtain ⟨b', rfl⟩ := Nat.exists_eq_add_one_of_ne_zero (Nat.ne_zero_of_lt enough.2)
  have before : fence.Before ts.length (fence.far ts i) (fence.near ts line j) :=
    ⟨⟨ts, plain, rfl, rfl, rfl⟩, rfl, rfl, rfl⟩
  have contains : fence.Contains
      (Parse.declared (Parse.statement b) (Parse.declaration b) (b + 1))
      (Parse.declared (Parse.statement b') (Parse.declaration b') (b' + 1))
      (fence.far (first.toList ++ ts) i) (fence.near (first.toList ++ ts) line j) :=
    declared leading (enough.pred (Nat.lt_succ_self _)) before (by simp [far]) (by simp [near])
  unfold Contains at contains
  simp only [Parse.declaration, declarationOf, recovering]
  split at contains
  next s d read =>
    left
    rw [read]
    exact ⟨s, d, rfl, contains⟩
  next fault d read =>
    right
    obtain ⟨c, n, read', left⟩ := contains
    obtain ⟨us, plain', -, hc, hd⟩ := left.rest
    rw [read, read']
    refine ⟨fault, _, c.nextNode, rfl, ?_, ?_, ?_⟩
    · show afterFault d.rest = []
      rw [hd, afterFault_plain fence.isSemicolon [] plain']
    · show d.faults.push fault = _
      rw [left.faults']
    · simp only [Reader.recover, hc, afterFault_plain fence.isSemicolon _ plain', left.line,
        left.faults]

end Fence

/-! ## Parts of a program

Declarations that are read one after another are read each on its own. -/

/-- Where there is a token ahead, one declaration is read, and then the others. -/
theorem declarations_cons {x : Rule (Option Stmt)} {rounds : Nat} {c d e : Cursor}
    {s : Option Stmt} {ss : List Stmt} (more : c.rest ≠ []) (first : x c = .ok s d)
    (others : declarations x false rounds d = .ok ss e) :
    declarations x false (rounds + 1) c = .ok (s.toList ++ ss) e := by
  have notEnded : Reader.atEnd c = false := by simpa [Reader.atEnd] using more
  simp only [declarations_round notEnded, Bool.false_and, Bool.false_eq_true, if_false]
  rw [bind_ok first, bind_ok others]
  rfl

/-- A fault in a declaration is recorded and goes no further. -/
theorem declarations_eq_ok (b rounds : Nat) (c : Cursor) :
    ∃ ss d, declarations (declaration b) false rounds c = .ok ss d := by
  induction rounds generalizing c with
  | zero => exact ⟨[], c, rfl⟩
  | succ rounds ih =>
      cases hc : c.rest with
      | nil => exact ⟨[], c, declarations_ended (List.isEmpty_iff.2 hc)⟩
      | cons t rest =>
          cases first : declaration b c with
          | error fault d => cases b with
            | zero => cases first
            | succ b => exact absurd first recovering_ne_error
          | ok s d =>
              obtain ⟨ss, e, others⟩ := ih d
              exact ⟨_, e, declarations_cons (by simp [hc]) first others⟩

/-- From these tokens, up to an end on the line, declarations are read that are the statements
`ss` up to identities, and the faults are recorded. -/
def Yields (ts : List Token) (line : Nat) (ss : List Stmt) (faults : List Fault) : Prop :=
  ∀ bound rounds i before, ts.length < bound → ts.length ≤ rounds →
    ∃ ss' d, declarations (declaration bound) false rounds (⟨ts, line, i, before⟩ : Cursor) =
        .ok ss' d ∧
      ss'.map Stmt.anonymous = ss ∧ d.faults.toList = before.toList ++ faults

namespace Yields

variable {ts us : List Token} {line : Nat} {ss ss' : List Stmt} {faults : List Fault}
  {eof : Token} {first : NodeId}

section
variable (inner : ∀ t ∈ ts, t.kind ≠ .eof) (last : eof.kind = .eof)
include inner last

/-- A program yields what it is parsed to. -/
theorem parsed (h : Yields ts eof.line ss faults) :
    (parse (ts ++ [eof]) first).statements.map Stmt.anonymous = ss ∧
      (parse (ts ++ [eof]) first).faults = faults := by
  have few : ts.length < (ts ++ [eof]).length + 1 := by
    rw [List.length_append]
    omega
  obtain ⟨ss', d, read, same, recorded⟩ :=
    h ((ts ++ [eof]).length + 1) ((ts ++ [eof]).length + 1) first #[] few (Nat.le_of_lt few)
  rw [parse_eq, parseCursor, start_append inner last, program, read]
  exact ⟨same, by simpa using recorded⟩

/-- Neither identities nor the faults before make a difference, and no bound that is enough. -/
theorem of_parse (first : NodeId) : Yields ts eof.line
    ((parse (ts ++ [eof]) first).statements.map Stmt.anonymous)
    (parse (ts ++ [eof]) first).faults := by
  intro bound rounds i before hbound hrounds
  obtain ⟨ss, d, read⟩ :=
    declarations_eq_ok ((ts ++ [eof]).length + 1) ((ts ++ [eof]).length + 1)
      ⟨ts, eof.line, first, #[]⟩
  obtain ⟨ss', d', read'⟩ := declarations_eq_ok bound rounds ⟨ts, eof.line, i, before⟩
  have beside : Cursor.Beside (fun _ => 0) before.toList [] ts.length
      ⟨ts, eof.line, i, before⟩ ⟨ts, eof.line, first, #[]⟩ :=
    ⟨rfl, rfl, rfl, ⟨[], by simp⟩, rfl⟩
  have paced : Paced true (fun _ => 0) (Cursor.Beside (fun _ => 0) before.toList []) :=
    Cursor.paced_beside fun _ => rfl
  have few : ts.length < (ts ++ [eof]).length + 1 := by
    rw [List.length_append]
    omega
  have abreast := paced.declarations Cursor.recovers_beside
    (paced.statement_declaration Cursor.recovers_beside ⟨hbound, few⟩).2 false hrounds
    (Nat.le_of_lt few) beside
  unfold Abreast at abreast
  rw [read, read'] at abreast
  obtain ⟨m, -, beside, same⟩ := abreast
  obtain ⟨faults, recorded, recorded'⟩ := beside.faults
  rw [parse_eq, parseCursor, start_append inner last, program, read]
  exact ⟨ss', d', read', same, recorded.trans (congrArg (before.toList ++ ·) recorded'.symm)⟩

end

/-- Declarations without a fault are read the same before anything but an `else`. -/
theorem valid (inner : ∀ t ∈ ts, t.kind ≠ .eof) (last : eof.kind = .eof)
    (h : (parse (ts ++ [eof]) first).faults = []) (noElse : Lacks [.keyword .else_] us)
    (hus : Yields us line ss faults) :
    Yields (ts ++ us) line
      ((parse (ts ++ [eof]) first).statements.map Stmt.anonymous ++ ss) faults := by
  intro bound rounds i before hbound hrounds
  obtain ⟨ss', j, same, reads⟩ := complete (derives_of_parse inner last first h) trivial i
  obtain ⟨left, more, leads⟩ := reads us bound rounds false (Nat.le_of_lt hbound) hrounds noElse
  rw [List.length_append] at hbound
  obtain ⟨us', d, read, same', recorded⟩ := hus bound left j before (by omega) more
  refine ⟨ss' ++ us', d, ?_, ?_, recorded⟩
  · rw [leads line before]
    simp only [Functor.map, EStateM.map, read]
  · rw [List.map_append, same']
    exact congrArg (· ++ ss) same

end Yields

/-- A text that is read up to a semicolon behind it, and holds none of its own: a statement without
braces, complete or not. -/
structure Spoilt (ts : List Token) : Prop where
  shape : ∃ first others, ts = Option.toList first ++ others ∧
    (∀ t ∈ first, t.kind ∈ leadingKinds) ∧ ∀ t ∈ others, isPlain t = true
  noElse : Lacks [.keyword .else_] ts

namespace Spoilt

variable {ts : List Token} {stop eof : Token} {first : NodeId}

/-- No end token is among those of such a text. -/
theorem inner (h : Spoilt ts) : ∀ t ∈ ts, t.kind ≠ .eof := by
  obtain ⟨head, others, rfl, leading, plain⟩ := h.shape
  intro t ht hk
  rcases List.mem_append.1 ht with ht | ht
  · have := leading t (Option.mem_toList.1 ht)
    rw [hk] at this
    exact absurd this (by decide)
  · have := plain t ht
    rw [isPlain, hk] at this
    exact absurd this (by decide)

section
variable (h : Spoilt ts) (isStop : stop.kind = .symbol .semicolon) (isEof : eof.kind = .eof)
  (faulty : (parse (ts ++ [stop, eof]) first).faults ≠ [])
include h isStop isEof faulty

/-- If there is a fault in the text, there is exactly one, and it is the same whatever follows the
semicolon. -/
theorem declaration : ∃ fault, (parse (ts ++ [stop, eof]) first).faults = [fault] ∧
    ∀ us line i before bound, ts.length + 1 < bound → ∃ j,
      Parse.declaration bound (⟨ts ++ stop :: us, line, i, before⟩ : Cursor) =
        .ok none ⟨us, line, j, before.push fault⟩ := by
  have inner : ∀ t ∈ ts ++ [stop], t.kind ≠ .eof := by
    intro t ht
    rcases List.mem_append.1 ht with ht | ht
    · exact h.inner t ht
    · rw [List.mem_singleton.1 ht, isStop]
      nofun
  have split : ts ++ [stop, eof] = ts ++ [stop] ++ [eof] := by simp
  obtain ⟨head, others, rfl, leading, plain⟩ := h.shape
  have bounded {b b' : Nat} (hb : (head.toList ++ others).length + 1 < b)
      (hb' : (head.toList ++ others).length + 1 < b') : Enough b b' (others.length + 1) := by
    rw [List.length_append] at hb hb'
    exact ⟨by omega, by omega⟩
  rw [split, parse_eq, parseCursor, start_append inner isEof, program] at faulty ⊢
  have room : (head.toList ++ others).length + 1 <
      (head.toList ++ others ++ [stop] ++ [eof]).length + 1 := by simp
  generalize (head.toList ++ others ++ [stop] ++ [eof]).length = b at room faulty ⊢
  have more : (⟨head.toList ++ others ++ [stop], eof.line, first, #[]⟩ : Cursor).rest ≠ [] := by
    simp
  rcases Fence.declaration ⟨stop, isStop, [], 0, #[], #[]⟩ leading plain
    (bounded room room) eof.line 0 first with ⟨s, d, read, ended, recorded⟩ |
    ⟨fault, d, -, read, ended, recorded, -⟩
  · rw [declarations_cons more read (declarations_ended (List.isEmpty_iff.2 ended))] at faulty
    exact absurd (congrArg Array.toList recorded) faulty
  refine ⟨fault, ?_, fun us line i before bound hbound => ?_⟩
  · rw [declarations_cons more read (declarations_ended (List.isEmpty_iff.2 ended))]
    exact congrArg Array.toList recorded
  -- The text alone is the same on the near side, so the fault is the same one.
  rcases Fence.declaration ⟨stop, isStop, us, line, before, #[]⟩ leading plain
    (bounded hbound room) eof.line i first with ⟨s, d', read', -⟩ |
    ⟨fault', d', j, read', -, recorded', skipped⟩
  · cases read.symm.trans read'
  · cases read.symm.trans read'
    obtain rfl : fault = fault' := by simpa using recorded.symm.trans recorded'
    exact ⟨j, skipped⟩

/-- Such a text adds its fault, and no statement. -/
theorem yields : ∃ fault, (parse (ts ++ [stop, eof]) first).faults = [fault] ∧
    ∀ {us line ss faults}, Yields us line ss faults →
      Yields (ts ++ stop :: us) line ss (fault :: faults) := by
  obtain ⟨fault, alone, skipped⟩ := h.declaration isStop isEof faulty
  refine ⟨fault, alone, fun {us line ss faults} hus bound rounds i before hbound hrounds => ?_⟩
  rw [List.length_append, List.length_cons] at hbound hrounds
  obtain ⟨rounds, rfl⟩ : ∃ k, rounds = k + 1 := Nat.exists_eq_add_one_of_ne_zero (by omega)
  obtain ⟨j, skipped⟩ := skipped us line i before bound (by omega)
  obtain ⟨ss', d, others, same, recorded⟩ :=
    hus bound rounds j (before.push fault) (by omega) (by omega)
  refine ⟨_, d, declarations_cons (by simp) skipped others, same, ?_⟩
  rw [recorded, Array.toList_push, List.append_assoc]
  rfl

end

end Spoilt

/-- Declarations in which there is no fault, then a faulty statement. -/
structure Piece (eof : Token) (first : NodeId) where
  valid : List Token
  valid_inner : ∀ t ∈ valid, t.kind ≠ .eof
  faultless : (parse (valid ++ [eof]) first).faults = []
  spoilt : List Token
  isSpoilt : Spoilt spoilt
  semicolon : Token
  isSemicolon : semicolon.kind = .symbol .semicolon
  faulty : (parse (spoilt ++ [semicolon, eof]) first).faults ≠ []

namespace Piece

variable {eof : Token} {first : NodeId}

/-- The tokens of a piece, its semicolon included. -/
def tokens (p : Piece eof first) : List Token :=
  p.valid ++ p.spoilt ++ [p.semicolon]

/-- The statements of a piece, without identities. -/
def statements (p : Piece eof first) : List Stmt :=
  (parse (p.valid ++ [eof]) first).statements.map Stmt.anonymous

/-- The faults of the faulty statement. -/
def faults (p : Piece eof first) : List Fault :=
  (parse (p.spoilt ++ [p.semicolon, eof]) first).faults

theorem inner (p : Piece eof first) : ∀ t ∈ p.tokens, t.kind ≠ .eof := by
  intro t ht
  simp only [tokens, List.mem_append, List.mem_singleton] at ht
  rcases ht with (ht | ht) | rfl
  · exact p.valid_inner t ht
  · exact p.isSpoilt.inner t ht
  · rw [p.isSemicolon]
    nofun

/-- A piece adds its statements and its fault to what follows. -/
theorem yields (p : Piece eof first) (isEof : eof.kind = .eof) {ts : List Token} {line : Nat}
    {ss : List Stmt} {faults : List Fault} (h : Yields ts line ss faults) :
    Yields (p.tokens ++ ts) line (p.statements ++ ss) (p.faults ++ faults) := by
  obtain ⟨fault, alone, yields⟩ := p.isSpoilt.yields p.isSemicolon isEof p.faulty
  have noElse : Lacks [.keyword .else_] (p.spoilt ++ p.semicolon :: ts) := by
    have := p.isSpoilt.noElse
    cases hs : p.spoilt with
    | nil => exact .cons p.isSemicolon (by decide)
    | cons t others => rwa [hs] at this
  have both := Yields.valid p.valid_inner isEof p.faultless noElse (yields h)
  rw [← List.singleton_append (l := faults), ← alone] at both
  simpa only [tokens, statements, Piece.faults, List.append_assoc, List.singleton_append] using both

end Piece

end Parse

open Parse

/-- **Faults are contained between statements.**  A piece is declarations without a fault, followed
by a faulty statement that has no semicolon or brace before the semicolon at its end.  Whatever
tokens `rest` follow a piece, up to identities they are parsed as they are alone, behind the
statements of the piece, and the faulty statement has one fault, which comes before theirs.
Declarations without a fault alone add no fault to what follows them, if that is no `else`.  So any
number of pieces before `rest` lose no statement, and have one fault each, in order. -/
theorem faults_contained {eof last : Token} (isEof : eof.kind = .eof) (isLast : last.kind = .eof)
    {rest : List Token} (inner : ∀ t ∈ rest, t.kind ≠ .eof) (first k : NodeId) :
    (∀ p : Parse.Piece eof first, ∃ fault, p.faults = [fault] ∧
      (parse (p.tokens ++ (rest ++ [last])) k).statements.map Stmt.anonymous =
        p.statements ++ (parse (rest ++ [last]) first).statements.map Stmt.anonymous ∧
      (parse (p.tokens ++ (rest ++ [last])) k).faults =
        fault :: (parse (rest ++ [last]) first).faults) ∧
    (∀ valid, (∀ t ∈ valid, t.kind ≠ .eof) → (parse (valid ++ [eof]) first).faults = [] →
      Lacks [.keyword .else_] (rest ++ [last]) →
      (parse (valid ++ (rest ++ [last])) k).statements.map Stmt.anonymous =
        (parse (valid ++ [eof]) first).statements.map Stmt.anonymous ++
          (parse (rest ++ [last]) first).statements.map Stmt.anonymous ∧
      (parse (valid ++ (rest ++ [last])) k).faults = (parse (rest ++ [last]) first).faults) ∧
    ∀ pieces : List (Parse.Piece eof first),
      (parse (pieces.flatMap Parse.Piece.tokens ++ (rest ++ [last])) k).statements.map Stmt.anonymous =
        pieces.flatMap Parse.Piece.statements ++
          (parse (rest ++ [last]) first).statements.map Stmt.anonymous ∧
      (parse (pieces.flatMap Parse.Piece.tokens ++ (rest ++ [last])) k).faults =
        pieces.flatMap Parse.Piece.faults ++ (parse (rest ++ [last]) first).faults := by
  have alone := Yields.of_parse inner isLast first
  have joined {before ss faults} (outer : ∀ t ∈ before, t.kind ≠ .eof)
      (h : Yields (before ++ rest) last.line ss faults) :
      (parse (before ++ (rest ++ [last])) k).statements.map Stmt.anonymous = ss ∧
        (parse (before ++ (rest ++ [last])) k).faults = faults := by
    rw [← List.append_assoc]
    refine h.parsed (fun t ht => ?_) isLast
    exact (List.mem_append.1 ht).elim (outer t) (inner t)
  refine ⟨fun p => ?_, fun valid outer faultless noElse => ?_, fun pieces => ?_⟩
  · obtain ⟨fault, single, -⟩ := p.isSpoilt.yields p.isSemicolon isEof p.faulty
    have both := joined p.inner (p.yields isEof alone)
    rw [show p.faults = [fault] from single] at both
    exact ⟨fault, single, both⟩
  · have noElse : Lacks [.keyword .else_] rest := by
      cases rest with
      | nil => exact .nil
      | cons t rest => exact noElse
    exact joined outer (.valid outer isEof faultless noElse alone)
  · refine joined (fun t ht => ?_) ?_
    · obtain ⟨p, -, ht⟩ := List.mem_flatMap.1 ht
      exact p.inner t ht
    · induction pieces with
      | nil => exact alone
      | cons p pieces ih =>
          have both := p.yields isEof ih
          simpa only [List.flatMap_cons, List.append_assoc] using both

/-- A sum that is assigned to is skipped; the statements on both sides of it are kept. -/
theorem faults_contained_sum_assigned :
    let name (lexeme : String) : Token := ⟨.identifier, lexeme, 1, ()⟩
    let print : Token := ⟨.keyword .print, "print", 1, ()⟩
    let plus : Token := ⟨.symbol .plus, "+", 1, ()⟩
    let equal : Token := ⟨.symbol .equal, "=", 1, ()⟩
    let stop : Token := ⟨.symbol .semicolon, ";", 1, ()⟩
    let eof : Token := ⟨.eof, "", 1, ()⟩
    let p : Parsed := parse ([print, name "a", stop] ++
      [name "b", plus, name "c", equal, name "d"] ++ [stop] ++
      ([print, name "e", stop] ++ [eof])) 0
    p.statements.map Stmt.anonymous = [.print (.read 0 (name "a")), .print (.read 0 (name "e"))] ∧
      p.faults = [(1, .invalidAssignmentTarget)] := by
  intro name print plus equal stop eof p
  have read (lexeme : String) :
      Grammar.Derives true .expression [name lexeme] (.read 0 (name lexeme)) :=
    .operation (.operand (.operand (.operand (.operand (.operand (.operand
      (.tightest (.suffixed (.primary (.read rfl))))))))))
  have printed (lexeme : String) : Grammar.Derives true .declarations [print, name lexeme, stop]
      [.print (.read 0 (name lexeme))] :=
    .next (.statement (.print rfl (read lexeme) rfl)) .done
  have inner (lexeme : String) : ∀ t ∈ [print, name lexeme, stop], t.kind ≠ .eof := by
    simp [print, name, stop]
  have last : eof.kind = .eof := rfl
  have alone (lexeme : String) : (parse ([print, name lexeme, stop] ++ [eof]) 0).faults = [] ∧
      (parse ([print, name lexeme, stop] ++ [eof]) 0).statements.map Stmt.anonymous =
        [.print (.read 0 (name lexeme))] := by
    obtain ⟨accepts, tree⟩ := parse_accepts (inner lexeme) last 0
    have faultless := accepts.2 ⟨_, (printed lexeme).loosen⟩
    exact ⟨faultless, ((tree faultless).2 _ (printed lexeme)).symm⟩
  have own : (parse ([name "b", plus, name "c", equal, name "d"] ++ [stop, eof]) 0).faults =
      [(1, .invalidAssignmentTarget)] := by decide +kernel
  let piece : Parse.Piece eof 0 :=
    { valid := [print, name "a", stop]
      valid_inner := inner "a"
      faultless := (alone "a").1
      spoilt := [name "b", plus, name "c", equal, name "d"]
      isSpoilt := ⟨⟨none, _, rfl, nofun, by decide⟩, .cons rfl (by decide)⟩
      semicolon := stop
      isSemicolon := rfl
      faulty := by
        rw [own]
        exact List.cons_ne_nil _ _ }
  obtain ⟨fault, single, statements, faults⟩ :=
    (faults_contained last last (inner "e") 0 0).1 piece
  obtain rfl : fault = (1, .invalidAssignmentTarget) := (List.cons.inj (single.symm.trans own)).1
  rw [(alone "e").1] at faults
  rw [(alone "e").2, Parse.Piece.statements, (alone "a").2] at statements
  exact ⟨statements, faults⟩

end Lox
