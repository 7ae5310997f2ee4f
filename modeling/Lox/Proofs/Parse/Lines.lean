import Lox.Proofs.Parse.Correctness

/-!
# Tokens on other lines

The grammar does not look at lines, so tokens on other lines are a program too, whose tree is the
same on other lines.

There is no induction over the parser in this.  It accepts what is derivable, so it is enough to
move the lines of a derivation.

* `Derives.relabel` — derivations of tokens on other lines.
* `parse_mapLine` — the parse of tokens on other lines.
-/

namespace Lox

open Parse Grammar

namespace Grammar

variable (lines : Nat → Nat)

/-- A tree on other lines. -/
def Nonterminal.relabel : (n : Nonterminal) → n.Tree → n.Tree
  | expression | operation _ | unary | call | primary => Expr.relabel id lines
  | items | arguments => List.map (Expr.relabel id lines)
  | optional => Option.map (Expr.relabel id lines)
  | declarations => List.map (Stmt.relabel id lines)
  | declaration | binding | statement _ => Stmt.relabel id lines
  | initializer => Option.map (Stmt.relabel id lines)
  | names | parameters => List.map (Token.mapLine lines)

/-- The node of an operator between operands takes the lines of its parts. -/
theorem relabel_node {l : Level} (hl : l ∈ levels) (left right : Expr) (operator : Token) :
    (l.node left operator right).relabel id lines =
      l.node (left.relabel id lines) (operator.mapLine lines) (right.relabel id lines) := by
  simp only [levels, List.mem_cons, List.not_mem_nil, or_false] at hl
  rcases hl with rfl | rfl | rfl | rfl | rfl | rfl <;> rfl

/-- A `for` loop takes the lines of its parts. -/
theorem relabel_asWhile (initializer : Option Stmt) (condition increment : Option Expr)
    (body : Stmt) :
    (asWhile initializer condition increment body).relabel id lines =
      asWhile (initializer.map (Stmt.relabel id lines))
        (condition.map (Expr.relabel id lines)) (increment.map (Expr.relabel id lines))
        (body.relabel id lines) := by
  cases initializer <;> cases condition <;> cases increment <;> rfl

/-- A constant stays one on another line. -/
theorem mapLine_isConstant {t : Token} {v : Literal} (h : t.IsConstant v) :
    (t.mapLine lines).IsConstant v := by
  cases h <;> constructor

/-- The same derivation, on other lines. -/
theorem Derives.relabel {nearest : Bool} {n : Nonterminal} {ts : List Token} {x : n.Tree}
    (h : Derives nearest n ts x) (proper : n.Proper) :
    Derives nearest n (ts.map (Token.mapLine lines)) (n.relabel lines x) := by
  induction h with
  | assign hn heq _ ih => exact .assign hn heq (ih trivial)
  | set _ hd hn heq _ iho ihv =>
      rw [List.map_append]
      exact .set (iho trivial) hd hn heq (ihv trivial)
  | operation _ ih => exact .operation (ih List.suffix_rfl)
  | operand _ ih => exact .operand (ih ((List.suffix_cons _ _).trans proper))
  | infixed _ hk _ ihl ihr =>
      rw [List.map_append, Nonterminal.relabel, relabel_node lines (proper.subset List.mem_cons_self)]
      exact .infixed (ihl proper) hk (ihr ((List.suffix_cons _ _).trans proper))
  | tightest _ ih => exact .tightest (ih trivial)
  | unary hk _ ih => exact .unary hk (ih trivial)
  | suffixed _ ih => exact .suffixed (ih trivial)
  | primary _ ih => exact .primary (ih trivial)
  | call _ hl _ hlen hr ihc iha =>
      simp only [List.map_append, List.map_cons, List.map_nil, Nonterminal.relabel, Expr.relabel,
        Expr.relabelAll_eq_map]
      exact .call (ihc trivial) hl (iha trivial) (by simpa using hlen) hr
  | get _ hd hn ih =>
      simp only [List.map_append, List.map_cons, List.map_nil]
      exact .get (ih trivial) hd hn
  | noArguments => exact .noArguments
  | someArguments _ ih => exact .someArguments (ih trivial)
  | lastItem _ ih => exact .lastItem (ih trivial)
  | nextItem _ hc _ ihe ihes =>
      rw [List.map_append]
      exact .nextItem (ihe trivial) hc (ihes trivial)
  | literal hv => exact .literal (mapLine_isConstant lines hv)
  | read hn => exact .read hn
  | group hl _ hr ih =>
      simp only [List.map_append, List.map_cons, List.map_nil]
      exact .group hl (ih trivial) hr
  | absent => exact .absent
  | present _ ih => exact .present (ih trivial)
  | done => exact .done
  | next _ _ ihs ihss =>
      rw [List.map_append]
      exact .next (ihs trivial) (ihss trivial)
  | cls hk hn hl hr => exact .cls hk hn hl hr
  | function hk hn hl _ hlen hr hb _ hrb ihp ihb =>
      simp only [List.map_append, List.map_cons, List.map_nil, Nonterminal.relabel, Stmt.relabel,
        Stmt.relabelAll_eq_map]
      exact .function hk hn hl (ihp trivial) (by simpa using hlen) hr hb (ihb trivial) hrb
  | var hk _ ih => exact .var hk (ih trivial)
  | statement _ ih => exact .statement (ih trivial)
  | uninitialized hn hs => exact .uninitialized hn hs
  | initialized hn heq _ hs ih =>
      simp only [List.map_append, List.map_cons, List.map_nil]
      exact .initialized hn heq (ih trivial) hs
  | noParameters => exact .noParameters
  | someParameters _ ih => exact .someParameters (ih trivial)
  | lastName hn => exact .lastName hn
  | nextName hn hc _ ih => exact .nextName hn hc (ih trivial)
  | expression _ hs ih =>
      simp only [List.map_append, List.map_cons, List.map_nil]
      exact .expression (ih trivial) hs
  | print hk _ hs ih =>
      simp only [List.map_append, List.map_cons, List.map_nil]
      exact .print hk (ih trivial) hs
  | ret hk _ hs ih =>
      simp only [List.map_append, List.map_cons, List.map_nil]
      exact .ret hk (ih trivial) hs
  | ifOnly hk hl _ hr _ ihc ihy =>
      simp only [List.map_append, List.map_cons]
      exact .ifOnly hk hl (ihc trivial) hr (ihy trivial)
  | ifElse hk hl _ hr _ hnearest ho _ ihc ihy ihn =>
      simp only [List.map_append, List.map_cons]
      exact .ifElse hk hl (ihc trivial) hr (ihy trivial) hnearest ho (ihn trivial)
  | loop hk hl _ hr _ ihc ihb =>
      simp only [List.map_append, List.map_cons]
      exact .loop hk hl (ihc trivial) hr (ihb trivial)
  | forLoop hk hl _ _ hs _ hr _ ihi ihc ihin ihb =>
      simp only [List.map_append, List.map_cons, Nonterminal.relabel, relabel_asWhile]
      exact .forLoop hk hl (ihi trivial) (ihc trivial) hs (ihin trivial) hr (ihb trivial)
  | noInitializer hs => exact .noInitializer hs
  | varInitializer hk _ ih => exact .varInitializer hk (ih trivial)
  | expressionInitializer _ hs ih =>
      simp only [List.map_append, List.map_cons, List.map_nil]
      exact .expressionInitializer (ih trivial) hs
  | block hl _ hr ih =>
      simp only [List.map_append, List.map_cons, List.map_nil, Nonterminal.relabel, Stmt.relabel,
        Stmt.relabelAll_eq_map]
      exact .block hl (ih trivial) hr

end Grammar

/-- **Tokens on other lines** are read as the same program on other lines, whichever identities the
accesses get. -/
theorem parse_mapLine {tokens : List Token} (inner : ∀ t ∈ tokens, t.kind ≠ .eof) {eof eof' : Token}
    (last : eof.kind = .eof) (last' : eof'.kind = .eof) {first : NodeId}
    (h : (parse (tokens ++ [eof]) first).faults = []) (lines : Nat → Nat) (first' : NodeId) :
    let parsed := parse (tokens.map (Token.mapLine lines) ++ [eof']) first'
    parsed.faults = [] ∧ parsed.statements.map Stmt.anonymous =
      ((parse (tokens ++ [eof]) first).statements.map (Stmt.relabel id lines)).map
        Stmt.anonymous := by
  have inner' : ∀ t ∈ tokens.map (Token.mapLine lines), t.kind ≠ .eof := by
    simpa using inner
  have derived := (derives_of_parse inner last first h).relabel lines trivial
  obtain ⟨ss, next, same, reads⟩ := complete derived trivial first'
  simp only [parse_of_reads inner' last' first' reads]
  exact ⟨trivial, same⟩

end Lox
