import Lox.Proofs.Parse.Completeness
import Lox.Proofs.Parse.Position
import Lox.Proofs.Parse.Soundness

/-!
# The parser accepts its grammar

The two directions meet: the tokens of a program are read without a fault if and only if they are
derivable, and the statements read are the tree of the one derivation in which every `else` belongs
to the nearest `if`.

The grammar is ambiguous and the parser is a function, so uniqueness has to come from somewhere.  It
comes from the parser: a derivation of the nearest kind is read to its own tree, whichever it is,
and one list of tokens is read to one tree.  That every derivable list has such a derivation is the
other half, and there an `else` is moved inward until it stands at the nearest `if`.

* `Derives.attach` — an `else` after an open statement finds an `if` inside it.
* `Derives.nearest` — whatever is derivable has a derivation of the nearest kind.
* `parse_append` — programs that follow each other are read one after the other.
* `parse_accepts` — the parser accepts what is derivable, and nothing else.
-/

namespace Lox

open Parse

/-! ## The nearest `if` -/

namespace Grammar

/-- An `else` after a statement that ends in an `if` without one belongs inside that statement. -/
theorem Derives.attach {n : Nonterminal} {ts : List Token} {x : n.Tree} (h : Derives true n ts x)
    (hn : n = .statement true) {otherwise : Token} (ho : otherwise.kind = .keyword .else_)
    {vs : List Token} {opened : Bool} {no : Stmt} (hno : Derives true (.statement opened) vs no) :
    ∃ opened' s, Derives true (.statement opened') (ts ++ otherwise :: vs) s := by
  induction h with
  | @ifOnly _ _ _ _ _ _ _ inner hk hl hc hr hy _ ih =>
      cases inner with
      | false =>
          have derived := Derives.ifElse hk hl hc hr hy (fun _ => rfl) ho hno
          simp only [List.append_assoc, List.cons_append] at derived ⊢
          exact ⟨opened, _, derived⟩
      | true =>
          obtain ⟨opened', yes, hyes⟩ := ih rfl
          have derived := Derives.ifOnly hk hl hc hr hyes
          simp only [List.append_assoc, List.cons_append] at derived ⊢
          exact ⟨true, _, derived⟩
  | ifElse hk hl hc hr hy closed ho' _ _ _ ih =>
      obtain ⟨opened', s, hs⟩ := ih hn
      have derived := Derives.ifElse hk hl hc hr hy closed ho' hs
      simp only [List.append_assoc, List.cons_append] at derived ⊢
      exact ⟨opened', _, derived⟩
  | loop hk hl hc hr _ _ ih =>
      obtain ⟨opened', body, hbody⟩ := ih hn
      have derived := Derives.loop hk hl hc hr hbody
      simp only [List.append_assoc, List.cons_append] at derived ⊢
      exact ⟨opened', _, derived⟩
  | forLoop hk hl hi hc hs hi' hr _ _ _ _ ih =>
      obtain ⟨opened', body, hbody⟩ := ih hn
      have derived := Derives.forLoop hk hl hi hc hs hi' hr hbody
      simp only [List.append_assoc, List.cons_append] at derived ⊢
      exact ⟨opened', _, derived⟩
  | _ => cases hn

/-- What a text has when each `else` is given to the nearest `if`: a tree of the same kind, and of
the same length where the grammar sets a limit. -/
def Nonterminal.HasNearest : (n : Nonterminal) → List Token → n.Tree → Prop
  | .statement _, ts, _ => ∃ opened s, Derives true (.statement opened) ts s
  | .items, ts, es => ∃ es' : List Expr, es'.length = es.length ∧ Derives true .items ts es'
  | .arguments, ts, es => ∃ es' : List Expr, es'.length = es.length ∧ Derives true .arguments ts es'
  | .names, ts, xs => Derives true .names ts xs
  | .parameters, ts, xs => Derives true .parameters ts xs
  | n, ts, _ => ∃ x, Derives true n ts x

/-- The grammar is ambiguous, but it derives nothing that it does not derive with each `else` at
the nearest `if`. -/
theorem Derives.nearest {nearest : Bool} {n : Nonterminal} {ts : List Token} {x : n.Tree}
    (h : Derives nearest n ts x) : n.HasNearest ts x := by
  induction h with
  | assign hn heq _ ih =>
      obtain ⟨value, hv⟩ := ih
      exact ⟨.assign 0 _ value, .assign hn heq hv⟩
  | set _ hd hn heq _ iho ihv =>
      obtain ⟨object, ho⟩ := iho
      obtain ⟨value, hv⟩ := ihv
      exact ⟨_, .set ho hd hn heq hv⟩
  | operation _ ih =>
      obtain ⟨e, he⟩ := ih
      exact ⟨e, .operation he⟩
  | operand _ ih =>
      obtain ⟨e, he⟩ := ih
      exact ⟨e, .operand he⟩
  | infixed _ hk _ ihl ihr =>
      obtain ⟨left, hl⟩ := ihl
      obtain ⟨right, hr⟩ := ihr
      exact ⟨_, .infixed hl hk hr⟩
  | tightest _ ih =>
      obtain ⟨e, he⟩ := ih
      exact ⟨e, .tightest he⟩
  | unary hk _ ih =>
      obtain ⟨operand, ho⟩ := ih
      exact ⟨_, .unary hk ho⟩
  | suffixed _ ih =>
      obtain ⟨e, he⟩ := ih
      exact ⟨e, .suffixed he⟩
  | primary _ ih =>
      obtain ⟨e, he⟩ := ih
      exact ⟨e, .primary he⟩
  | call _ hl _ hlen hr ihc iha =>
      obtain ⟨callee, hc⟩ := ihc
      obtain ⟨arguments, same, ha⟩ := iha
      exact ⟨_, .call hc hl ha (same ▸ hlen) hr⟩
  | get _ hd hn ih =>
      obtain ⟨object, ho⟩ := ih
      exact ⟨_, .get ho hd hn⟩
  | noArguments => exact ⟨[], rfl, .noArguments⟩
  | someArguments _ ih =>
      obtain ⟨es, same, hes⟩ := ih
      exact ⟨es, same, .someArguments hes⟩
  | lastItem _ ih =>
      obtain ⟨e, he⟩ := ih
      exact ⟨[e], rfl, .lastItem he⟩
  | nextItem _ hk _ ihe ihes =>
      obtain ⟨e, he⟩ := ihe
      obtain ⟨es, same, hes⟩ := ihes
      exact ⟨e :: es, by simp only [List.length_cons, same], .nextItem he hk hes⟩
  | literal hv => exact ⟨_, .literal hv⟩
  | read hn => exact ⟨.read 0 _, .read hn⟩
  | group hl _ hr ih =>
      obtain ⟨inner, hi⟩ := ih
      exact ⟨_, .group hl hi hr⟩
  | absent => exact ⟨none, .absent⟩
  | present _ ih =>
      obtain ⟨e, he⟩ := ih
      exact ⟨some e, .present he⟩
  | done => exact ⟨[], .done⟩
  | next _ _ ihs ihss =>
      obtain ⟨s, hs⟩ := ihs
      obtain ⟨ss, hss⟩ := ihss
      exact ⟨s :: ss, .next hs hss⟩
  | cls hk hn hl hr => exact ⟨_, .cls hk hn hl hr⟩
  | function hk hn hl _ hlen hr hlb _ hrb ihp ihb =>
      obtain ⟨body, hb⟩ := ihb
      exact ⟨_, .function hk hn hl ihp hlen hr hlb hb hrb⟩
  | var hk _ ih =>
      obtain ⟨s, hs⟩ := ih
      exact ⟨s, .var hk hs⟩
  | statement _ ih =>
      obtain ⟨opened, s, hs⟩ := ih
      exact ⟨s, .statement hs⟩
  | uninitialized hn hs => exact ⟨_, .uninitialized hn hs⟩
  | initialized hn heq _ hs ih =>
      obtain ⟨e, he⟩ := ih
      exact ⟨_, .initialized hn heq he hs⟩
  | noParameters => exact Derives.noParameters
  | someParameters _ ih => exact Derives.someParameters ih
  | lastName hn => exact Derives.lastName hn
  | nextName hn hk _ ih => exact Derives.nextName hn hk ih
  | expression _ hs ih =>
      obtain ⟨e, he⟩ := ih
      exact ⟨false, _, .expression he hs⟩
  | print hk _ hs ih =>
      obtain ⟨e, he⟩ := ih
      exact ⟨false, _, .print hk he hs⟩
  | ret hk _ hs ih =>
      obtain ⟨value, hv⟩ := ih
      exact ⟨false, _, .ret hk hv hs⟩
  | ifOnly hk hl _ hr _ ihc ihy =>
      obtain ⟨condition, hc⟩ := ihc
      obtain ⟨opened, yes, hy⟩ := ihy
      exact ⟨true, _, .ifOnly hk hl hc hr hy⟩
  | ifElse hk hl _ hr _ _ ho _ ihc ihy ihn =>
      obtain ⟨condition, hc⟩ := ihc
      obtain ⟨opened, yes, hy⟩ := ihy
      obtain ⟨opened', no, hn⟩ := ihn
      cases opened with
      | false => exact ⟨opened', _, .ifElse hk hl hc hr hy (fun _ => rfl) ho hn⟩
      | true =>
          -- the first branch takes the `else`, and none is left for this `if`
          obtain ⟨opened, s, hs⟩ := hy.attach rfl ho hn
          have derived := Derives.ifOnly hk hl hc hr hs
          simp only [List.append_assoc, List.cons_append] at derived ⊢
          exact ⟨true, _, derived⟩
  | loop hk hl _ hr _ ihc ihb =>
      obtain ⟨condition, hc⟩ := ihc
      obtain ⟨opened, body, hb⟩ := ihb
      exact ⟨opened, _, .loop hk hl hc hr hb⟩
  | forLoop hk hl _ _ hs _ hr _ ihi ihc ihn ihb =>
      obtain ⟨initializer, hi⟩ := ihi
      obtain ⟨condition, hc⟩ := ihc
      obtain ⟨increment, hn⟩ := ihn
      obtain ⟨opened, body, hb⟩ := ihb
      exact ⟨opened, _, .forLoop hk hl hi hc hs hn hr hb⟩
  | noInitializer hs => exact ⟨none, .noInitializer hs⟩
  | varInitializer hk _ ih =>
      obtain ⟨s, hs⟩ := ih
      exact ⟨some s, .varInitializer hk hs⟩
  | expressionInitializer _ hs ih =>
      obtain ⟨e, he⟩ := ih
      exact ⟨_, .expressionInitializer he hs⟩
  | block hl _ hr ih =>
      obtain ⟨body, hb⟩ := ih
      exact ⟨false, _, .block hl hb hr⟩

end Grammar

open Grammar

/-! ## Whole programs -/

section
variable {tokens : List Token} (inner : ∀ t ∈ tokens, t.kind ≠ .eof) {eof : Token}
  (last : eof.kind = .eof) (first : NodeId)
include inner last

/-- The tokens before the only end token are what is read. -/
theorem start_append : start (tokens ++ [eof]) first = ⟨tokens, eof.line, first, #[]⟩ := by
  have hall : ∀ t ∈ tokens, isInner t = true := fun t ht => by simp [isInner, inner t ht]
  have hlast : isInner eof = false := by simp [isInner, last]
  simp [start, endLine, List.takeWhile_append_of_pos hall, List.dropWhile_append_of_pos hall, hlast]

/-- Without a fault all of the tokens are derived. -/
theorem derives_of_parse (h : (parse (tokens ++ [eof]) first).faults = []) :
    Derives true .declarations tokens (parse (tokens ++ [eof]) first).statements := by
  rw [parse_eq, parseCursor, start_append inner last] at h ⊢
  cases hp : program ((tokens ++ [eof]).length + 1) (⟨tokens, eof.line, first, #[]⟩ : Cursor) with
  | error fault d =>
      rw [hp] at h
      simp at h
  | ok ss d =>
      rw [hp] at h
      have hf : d.faults = #[] := Array.ext' h
      exact (sound_program (by simp; omega) hp hf).2

/-- What is read whatever follows is read up to the end. -/
theorem parse_of_reads {ss : List Stmt} {next : NodeId}
    (h : Reads .declarations tokens first ss next) :
    parse (tokens ++ [eof]) first = ⟨ss, [], next⟩ := by
  obtain ⟨left, -, leads⟩ := h [] ((tokens ++ [eof]).length + 1) ((tokens ++ [eof]).length + 1) false
    (by simp; omega) (by simp; omega) .nil
  have read := (leads.trans Rule.Leads.declarations_nil.map) eof.line #[]
  simp only [List.append_nil] at read
  rw [parse_eq, parseCursor, start_append inner last, program, read]
  rfl

/-- What is read without a fault would be read so whatever followed. -/
theorem reads_of_parse (h : (parse (tokens ++ [eof]) first).faults = []) :
    Reads .declarations tokens first (parse (tokens ++ [eof]) first).statements
      (parse (tokens ++ [eof]) first).nextNode := by
  obtain ⟨ss, next, -, reads⟩ := complete (derives_of_parse inner last first h) trivial first
  rw [parse_of_reads inner last first reads]
  exact reads

end

/-- Programs without faults that follow each other are read one after the other. -/
theorem parse_append {tokens tokens' : List Token} (inner : ∀ t ∈ tokens, t.kind ≠ .eof)
    (inner' : ∀ t ∈ tokens', t.kind ≠ .eof) {eof eof' : Token} (last : eof.kind = .eof)
    (last' : eof'.kind = .eof) {first : NodeId} (h : (parse (tokens ++ [eof]) first).faults = [])
    (h' : (parse (tokens' ++ [eof']) (parse (tokens ++ [eof]) first).nextNode).faults = []) :
    parse (tokens ++ tokens' ++ [eof']) first =
      ⟨(parse (tokens ++ [eof]) first).statements ++
        (parse (tokens' ++ [eof']) (parse (tokens ++ [eof]) first).nextNode).statements, [],
        (parse (tokens' ++ [eof']) (parse (tokens ++ [eof]) first).nextNode).nextNode⟩ := by
  have inner'' : ∀ t ∈ tokens ++ tokens', t.kind ≠ .eof := by
    intro t ht
    rcases List.mem_append.1 ht with ht | ht
    · exact inner t ht
    · exact inner' t ht
  refine parse_of_reads inner'' last' first ?_
  exact (reads_of_parse inner last first h).append (derives_of_parse inner' last' _ h')
    (reads_of_parse inner' last' _ h')

/-- **The parser accepts its grammar**, and nothing else: a list of tokens whose only end token is
its last one is parsed without a fault if and only if the tokens before the end can be derived as
declarations.  The statements are then the tree of the derivation in which each `else` belongs to
the nearest `if`, and up to identities there is no other such tree. -/
theorem parse_accepts {tokens : List Token} (inner : ∀ t ∈ tokens, t.kind ≠ .eof) {eof : Token}
    (last : eof.kind = .eof) (first : NodeId) :
    ((parse (tokens ++ [eof]) first).faults = [] ↔
      ∃ program, Derives false .declarations tokens program) ∧
    ((parse (tokens ++ [eof]) first).faults = [] →
      Derives true .declarations tokens (parse (tokens ++ [eof]) first).statements ∧
      ∀ program, Derives true .declarations tokens program →
        program.map Stmt.anonymous =
          (parse (tokens ++ [eof]) first).statements.map Stmt.anonymous) := by
  refine ⟨⟨fun h => ?_, ?_⟩, fun h => ⟨derives_of_parse inner last first h, ?_⟩⟩
  · exact ⟨_, (derives_of_parse inner last first h).loosen⟩
  · rintro ⟨program, h⟩
    obtain ⟨program', h'⟩ := h.nearest
    obtain ⟨ss, next, -, reads⟩ := complete h' trivial first
    rw [parse_of_reads inner last first reads]
  · intro program h'
    obtain ⟨ss, next, same, reads⟩ := complete h' trivial first
    rw [parse_of_reads inner last first reads]
    exact same.symm

/-- In `for (var i = 0; i < 9; i = i + 1) if (a) if (b) c; else d;` the clauses of the loop go into
blocks around and inside a `while` loop, and the `else` goes to the second `if`. -/
theorem parse_accepts_for_around_ifs :
    let word (k : Keyword) : Token := ⟨.keyword k, String.ofList k.spelling, 1, ()⟩
    let sign (s : Symbol) : Token := ⟨.symbol s, String.ofList s.spelling, 1, ()⟩
    let name (lexeme : String) : Token := ⟨.identifier, lexeme, 1, ()⟩
    let number (lexeme : String) (x : Float) : Token := ⟨.number, lexeme, 1, x⟩
    let tokens := [word .for_, sign .leftParen,
      word .var, name "i", sign .equal, number "0" 0, sign .semicolon,
      name "i", sign .less, number "9" 9, sign .semicolon,
      name "i", sign .equal, name "i", sign .plus, number "1" 1, sign .rightParen,
      word .if_, sign .leftParen, name "a", sign .rightParen,
      word .if_, sign .leftParen, name "b", sign .rightParen, name "c", sign .semicolon,
      word .else_, name "d", sign .semicolon]
    let eof : Token := ⟨.eof, "", 1, ()⟩
    (∀ t ∈ tokens, t.kind ≠ .eof) ∧ eof.kind = .eof ∧
      (parse (tokens ++ [eof]) 0).faults = [] ∧
      (parse (tokens ++ [eof]) 0).statements.map Stmt.anonymous =
        [.block [.var (name "i") (some (.literal (.number 0))),
          .loop (.binary (.read 0 (name "i")) (sign .less) (.literal (.number 9)))
            (.block [
              .branch (.read 0 (name "a"))
                (.branch (.read 0 (name "b")) (.expression (.read 0 (name "c")))
                  (some (.expression (.read 0 (name "d"))))) none,
              .expression (.assign 0 (name "i")
                (.binary (.read 0 (name "i")) (sign .plus) (.literal (.number 1))))])]] := by
  intro word sign name number tokens eof
  have inner : ∀ t ∈ tokens, t.kind ≠ .eof := by simp [tokens, word, sign, name, number]
  have last : eof.kind = .eof := rfl
  -- operands of operators and whole expressions
  have read (lexeme : String) : Derives true (.operation []) [name lexeme] (.read 0 (name lexeme)) :=
    .tightest (.suffixed (.primary (.read rfl)))
  have constant (lexeme : String) (x : Float) :
      Derives true (.operation []) [number lexeme x] (.literal (.number x)) :=
    .tightest (.suffixed (.primary (.literal .number)))
  have whole {ts : List Token} {e : Expr} (h : Derives true (.operation []) ts e) :
      Derives true .expression ts e :=
    .operation (.operand (.operand (.operand (.operand (.operand (.operand h))))))
  -- the three clauses of the loop
  have initializer : Derives true .initializer
      (word .var :: (name "i" :: sign .equal :: [number "0" 0] ++ [sign .semicolon])) _ :=
    .varInitializer rfl (.initialized rfl rfl (whole (constant "0" 0)) rfl)
  have condition : Derives true .optional ([name "i"] ++ sign .less :: [number "9" 9]) _ :=
    .present (.operation (.operand (.operand (.operand (.infixed
      (.operand (.operand (.operand (read "i")))) (by decide)
      (.operand (.operand (constant "9" 9))))))))
  have sum : Derives true .expression ([name "i"] ++ sign .plus :: [number "1" 1]) _ :=
    .operation (.operand (.operand (.operand (.operand (.infixed
      (.operand (.operand (read "i"))) (by decide) (.operand (constant "1" 1)))))))
  have increment : Derives true .optional
      (name "i" :: sign .equal :: ([name "i"] ++ sign .plus :: [number "1" 1]))
      (some (.assign 0 (name "i") _)) :=
    .present (.assign rfl rfl sum)
  -- the two `if`s
  have second : Derives true (.statement false)
      (word .if_ :: sign .leftParen :: [name "b"] ++ sign .rightParen ::
        ([name "c"] ++ [sign .semicolon]) ++ word .else_ :: ([name "d"] ++ [sign .semicolon])) _ :=
    .ifElse rfl rfl (whole (read "b")) rfl (.expression (whole (read "c")) rfl) (fun _ => rfl) rfl
      (.expression (whole (read "d")) rfl)
  have body : Derives true (.statement true)
      (word .if_ :: sign .leftParen :: [name "a"] ++ sign .rightParen :: _) _ :=
    .ifOnly rfl rfl (whole (read "a")) rfl second
  have loop : Derives true (.statement true)
      (word .for_ :: sign .leftParen :: _ ++ _ ++ sign .semicolon :: _ ++ sign .rightParen :: _) _ :=
    .forLoop rfl rfl initializer condition rfl increment rfl body
  have derived : Derives true .declarations tokens _ :=
    .next (.statement loop) .done
  obtain ⟨accepts, tree⟩ := parse_accepts inner last 0
  have faultless := accepts.2 ⟨_, derived.loosen⟩
  exact ⟨inner, last, faultless, ((tree faultless).2 _ derived).symm⟩

end Lox
