import Lox.Proofs.Parse.Advance
import Lox.Proofs.Parse.Correctness

/-!
# Faults are found in order

The lines of the faults recorded so far, of the tokens ahead and of the end are one list, and no
rule takes it out of order: a rule takes tokens from the front of what is ahead and fails at the
token it has in view.  A target that cannot be assigned is blamed on an equals sign further back,
but then only an expression was read since, and that records nothing.

A fault is recorded by the loop over declarations, after the rule has failed, so the lines recorded
so far and those ahead have to be in order at two moments: when a rule has failed and its fault is
still to be recorded, and when recovery has gone on.  `Rule.recorded` is the cursor as it will be
then.  That the line of a fault fits between the others is clear where the fault is at the token in
view; the one that is not is that of a target that cannot be assigned.

* `Cursor.lines`, `Cursor.InOrder` — the list, and that it is in order behind some line.
* `Cursor.silent` — only a declaration records a fault.
* `Rule.ordered` — every rule leaves the lines in order, and recovery does.
* `parse_ordered` — the faults of a parse come in the order of their lines.
-/

namespace Lox.Parse

variable {α β : Type} {first : Nat}

/-! ## The list of lines

Recorded faults, tokens ahead, end. -/

/-- A line may stand twice in a list that is in order. -/
theorem pairwise_twice {xs ys : List Nat} {y : Nat} (h : (xs ++ y :: ys).Pairwise (· ≤ ·)) :
    (xs ++ y :: y :: ys).Pairwise (· ≤ ·) := by
  simp only [List.pairwise_append, List.pairwise_cons, List.forall_mem_cons] at h ⊢
  obtain ⟨before, ⟨least, behind⟩, between⟩ := h
  exact ⟨before, ⟨⟨Nat.le_refl y, least⟩, least, behind⟩,
    fun x hx => ⟨(between x hx).1, between x hx⟩⟩

namespace Cursor

/-- The lines of the faults recorded, of the tokens ahead and of the end. -/
def lines (c : Cursor) : List Nat :=
  c.faults.toList.map Prod.fst ++ (c.rest.map Token.line ++ [c.endLine])

/-- The lines are in order, and none comes before the first one. -/
def InOrder (first : Nat) (c : Cursor) : Prop :=
  (first :: c.lines).Pairwise (· ≤ ·)

/-- The cursor with one fault more. -/
def record (fault : Fault) (c : Cursor) : Cursor :=
  { c with faults := c.faults.push fault }

/-- A cursor that can be reached without a fault. -/
structure Silent (c d : Cursor) : Prop extends c.Before d where
  unchanged : d.faults = c.faults

variable {c d : Cursor}

/-- A fault comes behind those recorded and before the tokens ahead. -/
theorem lines_record (fault : Fault) (c : Cursor) : (c.record fault).lines =
    c.faults.toList.map Prod.fst ++ fault.1 :: (c.rest.map Token.line ++ [c.endLine]) := by
  simp [lines, record]

/-- Fewer lines are still in order. -/
theorem InOrder.sublist (h : c.InOrder first) (sub : d.lines.Sublist c.lines) :
    d.InOrder first :=
  List.Pairwise.sublist (sub.cons_cons first) h

/-- The token in view is on the first line ahead. -/
theorem lines_seen (c : Cursor) : ∃ behind,
    c.rest.map Token.line ++ [c.endLine] = c.seen.line :: behind := by
  unfold seen
  cases c.rest <;> exact ⟨_, rfl⟩

theorem InOrder.record_seen (h : c.InOrder first) (fault : SyntaxFault) :
    (c.record (c.seen.line, fault)).InOrder first := by
  obtain ⟨behind, ahead⟩ := c.lines_seen
  unfold InOrder at h ⊢
  rw [lines, ahead] at h
  rw [lines_record, ahead]
  exact @pairwise_twice (first :: _) _ _ h

/-- A rule that records nothing takes lines away. -/
theorem Silent.lines_sublist (h : c.Silent d) : d.lines.Sublist c.lines := by
  simp only [lines, h.unchanged, h.endLine]
  exact ((h.rest.sublist.map Token.line).append_right _).append_left _

/-- A fault at a token that was taken, when none was recorded since. -/
theorem Silent.record_sublist {t : Token} {e : Cursor} (h : d.Silent e)
    (taken : c.rest = t :: d.rest) (same : d = { c with rest := d.rest }) (fault : SyntaxFault) :
    (e.record (t.line, fault)).lines.Sublist c.lines := by
  have faults : d.faults = c.faults := by rw [same]
  have ending : d.endLine = c.endLine := by rw [same]
  rw [lines_record, lines, taken, h.unchanged, faults, h.endLine, ending]
  exact (((h.rest.sublist.map Token.line).append_right _).cons_cons t.line).append_left _

theorem Silent.refl (c : Cursor) : c.Silent c :=
  ⟨.refl c, rfl⟩

theorem Silent.trans {c d e : Cursor} (h : c.Silent d) (h' : d.Silent e) : c.Silent e :=
  ⟨h.toBefore.trans h'.toBefore, h'.unchanged.trans h.unchanged⟩

/-- Only a declaration records a fault. -/
theorem silent : Parser.Closed (σ := Cursor) (Parser.Keeps Silent) :=
  Reader.Moves.closed
    ⟨.refl, .trans, fun c => ⟨.advance c, rfl⟩, fun c => ⟨.mint c, rfl⟩⟩

end Cursor

/-! ## Rules

With the fault that a rule ends in counted as recorded. -/

/-- To take a token if there is one does not fail. -/
theorem takeAny_total (kinds : List Kind) (c : Cursor) :
    ∃ found d, takeAny kinds c = .ok found d := by
  unfold takeAny
  split <;> exact ⟨_, _, rfl⟩

theorem acceptAny_total (kinds : List Kind) (c : Cursor) :
    ∃ found d, acceptAny kinds c = .ok found d := by
  unfold acceptAny
  split
  · exact ⟨_, _, rfl⟩
  · exact takeAny_total kinds c

namespace Rule

/-- The cursor that a rule leaves, with the fault recorded if there is one. -/
def recorded (rule : Rule α) (c : Cursor) : Cursor :=
  match rule c with
  | .ok _ d => d
  | .error fault d => d.record fault

section
variable {rule : Rule α} {f : α → Rule β} {c d : Cursor} {a : α} {fault : Fault}

/-- Without a fault nothing is added. -/
theorem recorded_ok (hc : rule c = .ok a d) : rule.recorded c = d := by
  simp only [recorded, hc]

theorem recorded_error (hc : rule c = .error fault d) : rule.recorded c = d.record fault := by
  simp only [recorded, hc]

/-- After a success it is up to the next step. -/
theorem recorded_bind (hc : rule c = .ok a d) : recorded (rule >>= f) c = (f a).recorded d := by
  simp only [recorded, bind_ok hc]

end

/-- A rule that leaves the lines in order, also when it fails. -/
def Ordered (first : Nat) (rule : Rule α) : Prop :=
  ∀ c : Cursor, c.InOrder first → (rule.recorded c).InOrder first

namespace Ordered

variable {rule : Rule α}

theorem bind {f : α → Rule β} (h : rule.Ordered first) (hf : ∀ a, (f a).Ordered first) :
    Rule.Ordered first (rule >>= f) := by
  intro c ordered
  have left := h c ordered
  cases hc : rule c with
  | ok a d =>
      rw [recorded_ok hc] at left
      rw [recorded_bind hc]
      exact hf a d left
  | error fault d =>
      rw [recorded_error hc] at left
      rw [recorded_error (bind_error hc)]
      exact left

/-- A rule that neither records a fault nor fails. -/
theorem of_silent (h : rule.Keeps Cursor.Silent) (total : ∀ c, ∃ a d, rule c = .ok a d) :
    rule.Ordered first := by
  intro c ordered
  obtain ⟨a, d, hc⟩ := total c
  rw [recorded_ok hc]
  exact ordered.sublist (h.of_ok hc).lines_sublist

/-- A fault at the token in view is in order. -/
theorem fail (fault : SyntaxFault) : Rule.Ordered first (fail fault : Rule α) :=
  fun _ ordered => ordered.record_seen fault

/-- A target that cannot be assigned is blamed on the line given, and nothing else is recorded. -/
theorem lines_assignTo (target : Expr) (line : Nat) (value : Expr) (c : Cursor) :
    (recorded (assignTo target line value) c).lines.Sublist
      (c.record (line, .invalidAssignmentTarget)).lines := by
  have quiet : c.lines.Sublist (c.record (line, .invalidAssignmentTarget)).lines := by
    rw [Cursor.lines_record]
    exact (List.sublist_cons_self _ _).append_left _
  unfold assignTo
  split
  · exact quiet
  · exact quiet
  · exact List.Sublist.refl _

/-- The value of an assignment is an expression, in which no fault is recorded. -/
theorem assigned {bound : Nat} (h : Rule.Ordered first (expression bound)) (target : Expr) :
    Rule.Ordered first (assigned (expression bound) target) := by
  intro c ordered
  obtain ⟨found, d, hc⟩ : ∃ found d, accept (.symbol .equal) c = .ok found d :=
    acceptAny_total _ c
  have step : recorded (Parse.assigned (expression bound) target) c = _ := recorded_bind hc
  rw [step]
  cases found with
  | none =>
      obtain ⟨rfl, -⟩ := accept_eq_none hc
      exact ordered
  | some equal =>
      obtain ⟨-, taken, same⟩ := accept_eq_some hc
      have taking : c.Silent d := (Cursor.silent.accept _).of_ok hc
      have left := h d (ordered.sublist taking.lines_sublist)
      cases hv : expression bound d with
      | error fault e =>
          rw [recorded_error hv] at left
          exact (recorded_error (bind_error hv)).symm ▸ left
      | ok value e =>
          have reading : d.Silent e := (Cursor.silent.expression bound).of_ok hv
          have blamed := reading.record_sublist taken same .invalidAssignmentTarget
          refine (recorded_bind hv).symm ▸ ordered.sublist (.trans ?_ blamed)
          exact lines_assignTo target equal.line value e

/-- Recovery goes on behind the fault. -/
theorem recovering {rule : Rule Stmt} (h : rule.Ordered first) :
    Rule.Ordered first (recovering rule) := by
  intro c ordered
  have left := h c ordered
  cases hc : rule c with
  | ok s d =>
      have step : Parse.recovering rule c = .ok (some s) d := by simp only [Parse.recovering, hc]
      rw [recorded_ok hc] at left
      rwa [recorded_ok step]
  | error fault d =>
      have step : Parse.recovering rule c = .ok none (Reader.recover fault d) := by
        simp only [Parse.recovering, hc]
      have skipped : (d.record fault).Silent (Reader.recover fault d) :=
        ⟨⟨afterFault_suffix d.rest, rfl, Nat.le_refl _, List.prefix_refl _⟩, rfl⟩
      rw [recorded_error hc] at left
      rw [recorded_ok step]
      exact left.sublist skipped.lines_sublist

end Ordered

/-- **Every rule leaves the lines in order.** -/
theorem ordered : Parser.Recovering (σ := Cursor) (Ordered first) where
  pure _ _ ordered := ordered
  fail := .fail
  bind := .bind
  ended _ ordered := ordered
  sees _ _ ordered := ordered
  takeAny kinds := .of_silent (Cursor.silent.takeAny kinds) (takeAny_total kinds)
  acceptAny kinds := .of_silent (Cursor.silent.acceptAny kinds) (acceptAny_total kinds)
  fresh := .of_silent Cursor.silent.fresh fun _ => ⟨_, _, rfl⟩
  assigned := .assigned
  recovering := .recovering

end Rule

theorem Rule.Advances.endLine_recorded {rule : Rule α} (h : rule.Advances) (c : Cursor) :
    (rule.recorded c).endLine = c.endLine := by
  cases hc : rule c with
  | ok a d => exact (Rule.recorded_ok hc).symm ▸ (h.of_ok hc).endLine
  | error fault d => exact (Rule.recorded_error hc).symm ▸ (h.of_error hc).endLine

end Lox.Parse

namespace Lox

open Parse

/-- The faults of a parse are those recorded by the program. -/
theorem faults_parseCursor (bound : Nat) (c : Cursor) :
    (parseCursor bound c).faults = (Rule.recorded (program bound) c).faults.toList := by
  unfold parseCursor Rule.recorded
  cases program bound c <;> rfl

/-- **The faults of a parse come in the order of their lines** if the tokens do, and none is blamed
on a line before the first one or behind the end. -/
theorem parse_ordered {tokens : List Token} (inner : ∀ t ∈ tokens, t.kind ≠ .eof) {eof : Token}
    (last : eof.kind = .eof) {first : Nat}
    (sorted : (first :: (tokens ++ [eof]).map Token.line).Pairwise (· ≤ ·)) (node : NodeId) :
    (first :: ((parse (tokens ++ [eof]) node).faults.map Prod.fst ++ [eof.line])).Pairwise
      (· ≤ ·) := by
  rw [parse_eq, start_append inner last, faults_parseCursor]
  generalize (tokens ++ [eof]).length + 1 = bound
  have begun : Cursor.InOrder first ⟨tokens, eof.line, node, #[]⟩ := by
    simpa [Cursor.InOrder, Cursor.lines] using sorted
  have left := Rule.ordered.program bound _ begun
  have ending := (Rule.Advances.program bound).endLine_recorded ⟨tokens, eof.line, node, #[]⟩
  refine List.Pairwise.sublist ((List.Sublist.append_left ?_ _).cons_cons first) left
  rw [ending]
  exact List.sublist_append_right _ _

end Lox
