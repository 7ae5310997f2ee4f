import Lox.Proofs.Likeness.Machines

/-!
# Programs that may differ in more

A table of distances grows with each program of a session, and later programs differ in ways that
earlier ones do not.  What means the same still does so by a likeness that allows more, if its
tables say the same of the accesses there are so far.

A run that was like another one by a narrow likeness may go on by a wider one: trees and values that
are alike by the first are alike by the second, by induction on the way they are alike, and nothing
in a machine has to be looked at again.

* `Likeness.Within` — a likeness allows all that another one does.
* `Likeness.Within.stmts`, `Likeness.Within.machine` — trees and machines that are alike by the one
  are so by the other.
-/

namespace Lox

/-- What means the same by one likeness does so by another one. -/
structure Likeness.Within (L L' : Likeness) : Prop where
  lines : ∀ {line line'}, L.lines line line' → L'.lines line line'
  rename : L'.rename = L.rename
  braces : L'.braces = L.braces
  left : ∀ {id name id' name'}, L.accesses id name id' name' → L'.left[id]? = L.left[id]?
  right : ∀ {id name id' name'}, L.accesses id name id' name' → L'.right[id']? = L.right[id']?
  accesses : ∀ {id name id' name'}, L.accesses id name id' name' →
    L'.accesses id name id' name'

namespace Likeness.Within

variable {L L' : Likeness}

/-! ## Trees

One case for each form of an expression and of a statement.  Only accesses ask for an argument:
their tables agree by the hypothesis, on the accesses that there were. -/

section
variable {levels : List Lox.Level}

/-- Both likenesses rename alike. -/
theorem name_eq (h : L.Within L') (renamed : Bool) (x : String) :
    L'.name renamed x = L.name renamed x := by
  rw [Likeness.name, Likeness.name, h.rename]

theorem token (h : L.Within L') {renamed : Bool} {t t' : Token} (ht : t.Like L renamed t') :
    t.Like L' renamed t' :=
  ⟨h.lines ht.lines, by rw [h.name_eq]; exact ht.same⟩

theorem tokens (h : L.Within L') {renamed : Bool} {ts ts' : List Token}
    (hts : List.Forall₂ (Token.Like L renamed) ts ts') :
    List.Forall₂ (Token.Like L' renamed) ts ts' :=
  hts.imp fun _ _ => h.token

theorem name (h : L.Within L') {t t' : Token} (ht : t.LikeName L levels t') :
    t.LikeName L' levels t' := by
  obtain ⟨like, renamed, shared, fixed⟩ := ht
  exact ⟨h.token like, renamed, shared, by rw [h.name_eq, fixed]⟩

theorem access (h : L.Within L') {id id' : NodeId} {name name' : Token}
    (ha : Access.Like L levels id id' name name') :
    Access.Like L' levels id id' name name' := by
  cases ha with
  | toGlobal left right like paired =>
      exact .toGlobal ((h.left paired).trans left) ((h.right paired).trans right) (h.token like)
        (h.accesses paired)
  | toLocal left right located like paired =>
      exact .toLocal ((h.left paired).trans left) ((h.right paired).trans right) located
        (h.token like) (h.accesses paired)

mutual

theorem expr (h : L.Within L') : ∀ {e e' : Expr}, e.Like L levels e' → e.Like L' levels e'
  | _, _, .literal value => .literal value
  | _, _, .group he => .group (h.expr he)
  | _, _, .unary hop he => .unary (h.token hop) (h.expr he)
  | _, _, .binary hx hop hy => .binary (h.expr hx) (h.token hop) (h.expr hy)
  | _, _, .logical hx hop hy => .logical (h.expr hx) (h.token hop) (h.expr hy)
  | _, _, .read ha => .read (h.access ha)
  | _, _, .assign ha he => .assign (h.access ha) (h.expr he)
  | _, _, .call hf hparen hargs => .call (h.expr hf) (h.token hparen) (h.exprs hargs)
  | _, _, .get he hname => .get (h.expr he) (h.token hname)
  | _, _, .set he hname hx => .set (h.expr he) (h.token hname) (h.expr hx)

theorem exprs (h : L.Within L') : ∀ {es es' : List Expr}, Expr.LikeAll L levels es es' →
    Expr.LikeAll L' levels es es'
  | _, _, .nil => .nil
  | _, _, .cons he hes => .cons (h.expr he) (h.exprs hes)

end

theorem option (h : L.Within L') {e e' : Option Expr} (he : Expr.LikeOption L levels e e') :
    Expr.LikeOption L' levels e e' := by
  cases he with
  | none => exact .none
  | some he => exact .some (h.expr he)

end

mutual

theorem stmt (h : L.Within L') : ∀ {levels : List Lox.Level} {s s' : Stmt}, s.Like L levels s' →
    s.Like L' levels s'
  | _, _, _, .expression he => .expression (h.expr he)
  | _, _, _, .print he => .print (h.expr he)
  | _, _, _, .var shared hname he => .var shared (h.token hname) (h.option he)
  | _, _, _, .block hbody => .block (h.stmts hbody)
  | _, _, _, .ifOnly he hyes => .ifOnly (h.expr he) (h.stmt hyes)
  | _, _, _, .ifElse he hyes hno => .ifElse (h.expr he) (h.stmt hyes) (h.stmt hno)
  | _, _, _, .loop he hbody => .loop (h.expr he) (h.stmt hbody)
  | _, _, _, .function hname hparameters hbody =>
      .function (h.name hname) (h.tokens hparameters) (h.stmts hbody)
  | _, _, _, .ret hkeyword he => .ret (h.token hkeyword) (h.option he)
  | _, _, _, .cls hname => .cls (h.name hname)
  | _, _, _, .braces allowed hs => .braces (h.braces.trans allowed) (h.stmt hs)

theorem stmts (h : L.Within L') : ∀ {levels : List Lox.Level} {ss ss' : List Stmt},
    Stmt.LikeAll L levels ss ss' → Stmt.LikeAll L' levels ss ss'
  | _, _, _, .nil => .nil
  | _, _, _, .cons hs hss => .cons (h.stmt hs) (h.stmts hss)

end

/-! ## Machines

Frames, values and bindings are compared through the world that pairs them, which is the same in
both likenesses. -/

section
variable {w : World}

theorem chain (h : L.Within L') {levels : List Lox.Level} {fs fs' : List FrameId}
    (hc : Chain L w levels fs fs') : Chain L' w levels fs fs' := by
  induction hc with
  | globals h0 => exact .globals h0
  | shared hf _ ih => exact .shared hf ih
  | extra allowed _ ih => exact .extra (h.braces.trans allowed) ih

theorem value (h : L.Within L') {v v' : Value} (hv : v.Like L w v') : v.Like L' w v' := by
  cases hv with
  | callable i hc =>
      refine .callable i ?_
      cases hc with
      | host f => exact .host f
      | cls name => exact .cls name
      | function hname chain hparameters hbody =>
          exact .function (h.token hname) (h.chain chain) (h.tokens hparameters) (h.stmts hbody)
  | nil => exact .nil
  | bool b => exact .bool b
  | number x => exact .number x
  | string s => exact .string s
  | object i c => exact .object i c

theorem bindings (h : L.Within L') {renamed : Bool} {b b' : Bindings Value}
    (hb : Bindings.Like L w renamed b b') : Bindings.Like L' w renamed b b' := by
  intro x
  rw [h.name_eq]
  exact rel_imp (fun _ _ => h.value) (hb x)

/-- Machines that are alike still are so with the later tables. -/
theorem machine (h : L.Within L') {m m' : Machine} (hm : m.Like L w m') :
    Machine.Like L' w { m with distances := L'.left } { m' with distances := L'.right } where
  left := rfl
  right := rfl
  globals := hm.globals
  frames := {
    size := hm.frames.size
    range := hm.frames.range
    nodup := hm.frames.nodup
    bindings := fun f f' renamed hf => h.bindings (hm.frames.bindings f f' renamed hf)
    aligned := fun hb => hm.frames.aligned (h.braces.symm.trans hb) }
  objects := hm.objects
  fields i := h.bindings (hm.fields i)
  callables := hm.callables
  depth := hm.depth
  sink := hm.sink
  clock := hm.clock
  readings := hm.readings

end

end Likeness.Within

end Lox
