import Lox.Proofs.Parse.Kinds
import Lox.Proofs.Printed.Reading

/-!
# Printed trees are faithful

Every tree that a parse yields is made of tokens of its source, so that it can be read off its form
unless there are strings or infinite numbers among its constants: a string is printed without its
quotes, and an infinite number as a text that is a name.  Forms are read in one way only, and so
what is printed for a tree says everything about it but the identities of accesses and the lines.

So two trees that are printed the same have the same form, are read off it in the same way, and are
the same but for what is not printed.  That the constants are legible is needed of both trees, and
of nothing else in them.

* `Expr.Legible`, `Stmt.Legible` — no constant is a string or an infinite number.
* `Expr.Paired.readable`, `Stmt.Paired.readable` — trees that are made of tokens of a source.
* `text_faithful` — **trees that are printed the same are the same**.
-/

namespace Lox

open Parse

/-! ## Legible trees

A condition on constants only. -/

mutual

/-- No constant is a string or an infinite number. -/
def Expr.Legible : Expr → Prop
  | .literal value => value.Legible
  | .group inner => inner.Legible
  | .unary _ operand => operand.Legible
  | .binary left _ right | .logical left _ right => left.Legible ∧ right.Legible
  | .read _ _ => True
  | .assign _ _ value => value.Legible
  | .call callee _ arguments => callee.Legible ∧ Expr.LegibleAll arguments
  | .get object _ => object.Legible
  | .set object _ value => object.Legible ∧ value.Legible

/-- All of the expressions are legible. -/
def Expr.LegibleAll : List Expr → Prop
  | [] => True
  | e :: es => e.Legible ∧ Expr.LegibleAll es

end

mutual

/-- No constant is a string or an infinite number. -/
def Stmt.Legible : Stmt → Prop
  | .expression e | .print e => e.Legible
  | .var _ initializer => ∀ e ∈ initializer, e.Legible
  | .block body => Stmt.LegibleAll body
  | .branch condition yes none => condition.Legible ∧ yes.Legible
  | .branch condition yes (some no) => condition.Legible ∧ yes.Legible ∧ no.Legible
  | .loop condition body => condition.Legible ∧ body.Legible
  | .function _ _ body => Stmt.LegibleAll body
  | .ret _ value => ∀ e ∈ value, e.Legible
  | .cls _ => True

/-- All of the statements are legible. -/
def Stmt.LegibleAll : List Stmt → Prop
  | [] => True
  | s :: ss => s.Legible ∧ Stmt.LegibleAll ss

end

/-! ## Trees of a source

A parsed tree is made of tokens of its source, so its names are identifiers and its operators are of
their kinds. -/

/-- All tokens but the end are of the lexical grammar. -/
def Pairing.Spelt (p : Pairing) : Prop :=
  ∀ {t t' : Token}, p.tokens t t' → t.kind ≠ .eof → t.Spelt

section
variable {p : Pairing}

/-- A token of a source, other than the end, is spelt as its kind is. -/
theorem Pairing.Of.spelt (source : p.Spelt) {kinds : List Kind} {t t' : Token} (h : p.Of kinds t t')
    (inner : .eof ∉ kinds) : t.Spelt :=
  source h.tokens fun same => inner (same ▸ h.kind)

/-- A name in a tree is an identifier of the source. -/
theorem Pairing.Of.isName (source : p.Spelt) {t t' : Token} (h : p.Of [.identifier] t t') :
    t.IsName :=
  ⟨h.spelt source (by decide), h.eq⟩

mutual

/-- Expressions that are made of tokens of a source are read off their forms. -/
theorem Expr.Paired.readable (source : p.Spelt) : ∀ (e : Expr) {e' : Expr}, e.Paired p e' →
    e.Legible → e.Readable
  | .literal _, _, h, legible => by
      cases h with
      | literal h =>
          obtain ⟨t, _, ht, denotes, -⟩ := h
          exact .literal (Literal.readable_of_isConstant (source ht) denotes legible)
  | .group inner, _, h, legible => by
      cases h with
      | group h => exact .group (Expr.Paired.readable source inner h legible)
  | .unary _ operand, _, h, legible => by
      cases h with
      | unary hop h =>
          exact .unary (hop.spelt source (by decide)) hop.kind
            (Expr.Paired.readable source operand h legible)
  | .binary left _ right, _, h, legible => by
      cases h with
      | binary hl hop hr =>
          exact .binary (hop.spelt source (by decide)) hop.kind
            (Expr.Paired.readable source left hl legible.1)
            (Expr.Paired.readable source right hr legible.2)
  | .logical left _ right, _, h, legible => by
      cases h with
      | logical hl hop hr =>
          exact .logical (hop.spelt source (by decide)) hop.kind
            (Expr.Paired.readable source left hl legible.1)
            (Expr.Paired.readable source right hr legible.2)
  | .read id _, _, h, _ => by
      cases h with
      | read _ hname => exact .access id (hname.isName source)
  | .assign id _ value, _, h, legible => by
      cases h with
      | assign _ hname h =>
          exact .assign id (hname.isName source) (Expr.Paired.readable source value h legible)
  | .call callee _ arguments, _, h, legible => by
      cases h with
      | call hf hparen hargs =>
          exact .call (hparen.spelt source (by decide)) hparen.eq
            (Expr.Paired.readable source callee hf legible.1)
            (Expr.PairedAll.readable source arguments hargs legible.2)
  | .get object _, _, h, legible => by
      cases h with
      | get h hname =>
          exact .get (hname.isName source) (Expr.Paired.readable source object h legible)
  | .set object _ value, _, h, legible => by
      cases h with
      | set h hname hv =>
          exact .set (hname.isName source) (Expr.Paired.readable source object h legible.1)
            (Expr.Paired.readable source value hv legible.2)

theorem Expr.PairedAll.readable (source : p.Spelt) : ∀ (es : List Expr) {es' : List Expr},
    Expr.PairedAll p es es' → Expr.LegibleAll es → Expr.AllReadable es
  | [], _, _, _ => .nil
  | e :: es, _, h, legible => by
      cases h with
      | cons he hes =>
          exact .cons (Expr.Paired.readable source e he legible.1)
            (Expr.PairedAll.readable source es hes legible.2)

end

theorem Expr.Paired.readable_optional (source : p.Spelt) {e e' : Option Expr}
    (h : Option.Rel (Expr.Paired p) e e') (legible : ∀ x ∈ e, x.Legible) : ∀ x ∈ e, x.Readable := by
  cases h with
  | none => exact fun _ mem => nomatch mem
  | some h =>
      intro x mem
      obtain rfl := Option.some.inj mem
      exact Expr.Paired.readable source _ h (legible _ rfl)

mutual

/-- Statements that are made of tokens of a source are read off their forms. -/
theorem Stmt.Paired.readable (source : p.Spelt) : ∀ (s : Stmt) {s' : Stmt}, s.Paired p s' →
    s.Legible → s.Readable
  | .expression e, _, h, legible => by
      cases h with
      | expression he => exact .expression (Expr.Paired.readable source e he legible)
  | .print e, _, h, legible => by
      cases h with
      | print he => exact .print (Expr.Paired.readable source e he legible)
  | .var _ _, _, h, legible => by
      cases h with
      | var hname he =>
          exact .var (hname.isName source) (Expr.Paired.readable_optional source he legible)
  | .block body, _, h, legible => by
      cases h with
      | block h => exact .block (Stmt.PairedAll.readable source body h legible)
  | .branch condition yes none, _, h, legible => by
      cases h with
      | ifOnly hc hyes =>
          exact .ifOnly (Expr.Paired.readable source condition hc legible.1)
            (Stmt.Paired.readable source yes hyes legible.2)
  | .branch condition yes (some no), _, h, legible => by
      cases h with
      | ifElse hc hyes hno =>
          exact .ifElse (Expr.Paired.readable source condition hc legible.1)
            (Stmt.Paired.readable source yes hyes legible.2.1)
            (Stmt.Paired.readable source no hno legible.2.2)
  | .loop condition body, _, h, legible => by
      cases h with
      | loop hc h =>
          exact .loop (Expr.Paired.readable source condition hc legible.1)
            (Stmt.Paired.readable source body h legible.2)
      | endless h =>
          exact .loop (.literal (Literal.readable_bool true))
            (Stmt.Paired.readable source body h legible.2)
  | .function _ _ body, _, h, legible => by
      cases h with
      | function hname hparameters h =>
          have named := (List.forall₂_and_left _ _).1
            (hparameters.imp fun _ _ paired => ⟨paired.isName source, paired⟩)
          exact .function (hname.isName source) named.1
            (Stmt.PairedAll.readable source body h legible)
  | .ret _ _, _, h, legible => by
      cases h with
      | ret hkeyword he =>
          exact .ret (hkeyword.spelt source (by decide)) hkeyword.eq
            (Expr.Paired.readable_optional source he legible)
  | .cls _, _, h, _ => by
      cases h with
      | cls hname => exact .cls (hname.isName source)

theorem Stmt.PairedAll.readable (source : p.Spelt) : ∀ (ss : List Stmt) {ss' : List Stmt},
    Stmt.PairedAll p ss ss' → Stmt.LegibleAll ss → Stmt.AllReadable ss
  | [], _, _, _ => .nil
  | s :: ss, _, h, legible => by
      cases h with
      | cons hs hss =>
          exact .cons (Stmt.Paired.readable source s hs legible.1)
            (Stmt.PairedAll.readable source ss hss legible.2)

end

end

/-- The trees that a parse of a source yields are read off their forms. -/
theorem readable_of_mem_parse {source : String} {first : NodeId} {s : Stmt}
    (hs : s ∈ (parse (Scan.tokens (scan source)) first).statements) (legible : s.Legible) :
    s.Readable := by
  have kinds : (Scan.tokens (scan source)).map Token.kind =
      (Scan.tokens (scan source)).map Token.kind := rfl
  have itself : s.Paired (.places kinds first first) s :=
    List.forall₂_same.1 (Stmt.pairedAll_iff.1 (parse_paired kinds first first).statements) s hs
  refine Stmt.Paired.readable ?_ s itself legible
  rintro t - ⟨i, ht, -⟩ inner
  have mem := List.mem_of_getElem? ht
  rw [Scan.tokens_scan, List.mem_append, List.mem_singleton] at mem
  rcases mem with mem | rfl
  · exact Scan.spelt_of_mem_innerTokens mem
  · exact absurd rfl inner

/-- **Trees that are printed the same are the same.**  Of two statements that the parses of two
sources yield, neither with a string or an infinite number among its constants, the printed texts
are equal if and only if the statements are equal up to the identities of accesses and the lines of
tokens: node by node, with the same operators and names, and the same numbers bit for bit.  It does
not matter whether there are faults elsewhere in the sources. -/
theorem text_faithful {source source' : String} {first first' : NodeId} {s s' : Stmt}
    (hs : s ∈ (parse (Scan.tokens (scan source)) first).statements)
    (hs' : s' ∈ (parse (Scan.tokens (scan source')) first').statements)
    (legible : s.Legible) (legible' : s'.Legible) : s.text = s'.text ↔ s.bare = s'.bare := by
  have readable := readable_of_mem_parse hs legible
  have readable' := readable_of_mem_parse hs' legible'
  constructor
  · intro same
    have forms : s.form = s'.form := by
      refine Form.text_injective readable.plain readable'.plain ?_
      rw [← Stmt.text_eq, ← Stmt.text_eq, same]
    calc s.bare = Stmt.ofForm s.form := readable.read.symm
      _ = Stmt.ofForm s'.form := by rw [forms]
      _ = s'.bare := readable'.read
  · intro same
    calc s.text = s.bare.text := (s.text_relabel _ _).symm
      _ = s'.bare.text := by rw [same]
      _ = s'.text := s'.text_relabel _ _

/-- One function in two layouts, with the number written in two ways. -/
theorem text_faithful_layouts :
    let tree (id : NodeId) (line : Nat) (x : Float) : Stmt :=
      .function ⟨.identifier, "f", 1, ()⟩ [⟨.identifier, "a", 1, ()⟩]
        [.expression (.set (.read id ⟨.identifier, "a", line, ()⟩) ⟨.identifier, "n", line, ()⟩
          (.binary
            (.unary ⟨.symbol .minus, "-", line, ()⟩ (.read (id + 1) ⟨.identifier, "a", line, ()⟩))
            ⟨.symbol .minus, "-", line, ()⟩ (.literal (.number x))))]
    let source := "fun f(a) \x7b a.n = -a - 2.50; \x7d"
    let source' := "fun f(a)\n\x7b\n  a.n=-a-2.5; // the same\n\x7d"
    let s := tree 0 1 (Number.ofDecimal 250 2)
    let s' := tree 6 3 (Number.ofDecimal 25 1)
    s ∈ (parse (Scan.tokens (scan source)) 0).statements ∧
      s' ∈ (parse (Scan.tokens (scan source')) 6).statements ∧
      s.Legible ∧ s'.Legible ∧ s.text = "(fun f(a) (; (= (. a n) (- (- a) 2.5))))" ∧
      s.text = s'.text ∧ s.bare = s'.bare := by
  intro tree source source' s s'
  have hs : (parse (Scan.tokens (scan source)) 0).statements = [s] := by
    dsimp only [source]
    rw [Scan.tokens_scan]
    rfl
  have hs' : (parse (Scan.tokens (scan source')) 6).statements = [s'] := by
    dsimp only [source']
    rw [Scan.tokens_scan]
    rfl
  have finite (negative : Bool) :
      Number.decode (Number.ofDecimal 250 2) ≠ .infinite negative ∧
        Number.decode (Number.ofDecimal 25 1) ≠ .infinite negative := by
    revert negative
    decide +kernel
  have legible : s.Legible := ⟨⟨trivial, trivial, fun negative => (finite negative).1⟩, trivial⟩
  have legible' : s'.Legible := ⟨⟨trivial, trivial, fun negative => (finite negative).2⟩, trivial⟩
  have text : s.text = "(fun f(a) (; (= (. a n) (- (- a) 2.5))))" := by
    dsimp only [s, tree]
    decide +kernel
  have same : s.text = s'.text := by
    dsimp only [s, s', tree]
    decide +kernel
  have mem : s ∈ (parse (Scan.tokens (scan source)) 0).statements :=
    hs ▸ List.mem_singleton_self s
  have mem' : s' ∈ (parse (Scan.tokens (scan source')) 6).statements :=
    hs' ▸ List.mem_singleton_self s'
  exact ⟨mem, mem', legible, legible', text, same,
    (text_faithful mem mem' legible legible').1 same⟩

end Lox
