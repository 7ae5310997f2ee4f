import Lox.Proofs.Likeness.Trees
import Lox.Proofs.Resolution.Relabel
import Lox.Proofs.Resolution.Scoping

/-!
# Resolved trees that differ in identities and lines

Two trees that are equal but for identities and lines mean the same, if a ledger is right about
each of them: inside the same scopes, the same name is at the same distance.

The proof goes along both trees at once, with the scopes that stand around them.  Scopes that bind
the same names at the same places find the same distance for a name, and a ledger that is right
about an access says that distance; so both ledgers say the same, whatever identities they say it
of.

* `Stmt.Resolved.relabel` — a ledger is right about a tree on other lines.
* `Likeness.Plain` — what such trees differ in.
* `Expr.like_of_same`, `Stmt.like_of_same` — they mean the same.
-/

namespace Lox

open Resolution

/-! ## Other lines

Lines have no part in what a ledger says of a tree: neither an identity nor a name changes when
lines are moved. -/

section
variable {l : Ledger} (lines : Nat → Nat)

theorem Expr.Resolved.relabel {scopes : Scopes} {e : Expr} (h : e.Resolved l scopes) :
    (e.relabel id lines).Resolved l scopes := by
  intro a ha
  rw [Expr.accesses_relabel] at ha
  obtain ⟨b, hb, rfl⟩ := List.mem_map.1 ha
  obtain ⟨known, distance, readable, selfWrite⟩ := h b hb
  exact ⟨known, distance, readable, selfWrite⟩

theorem Expr.Resolved.relabelOption {scopes : Scopes} {e : Option Expr}
    (h : ∀ x ∈ e, x.Resolved l scopes) :
    ∀ x ∈ e.map (Expr.relabel id lines), x.Resolved l scopes := by
  intro x hx
  obtain ⟨y, rfl, rfl⟩ := Option.map_eq_some_iff.1 hx
  exact (h y rfl).relabel lines

/-- A name can be declared on any line if it can on one. -/
theorem Scopes.declare_mapLine_of_ok {scopes after : Scopes} {name : Token}
    (h : scopes.declare name = .ok after) : scopes.declare (name.mapLine lines) = .ok after := by
  rw [Scopes.declare_mapLine, h]
  rfl

theorem Scopes.introduce_mapLine_of_ok {scopes after : Scopes} {name : Token}
    (h : scopes.introduce name = .ok after) :
    scopes.introduce (name.mapLine lines) = .ok after := by
  rw [Scopes.introduce_mapLine, h]
  rfl

mutual

/-- A ledger is right about a statement on other lines. -/
theorem Stmt.Resolved.relabel : ∀ (s : Stmt) {scopes after : Scopes}, s.Resolved l scopes after →
    (s.relabel id lines).Resolved l scopes after
  | .expression _, _, _, ⟨he, h⟩ | .print _, _, _, ⟨he, h⟩ => ⟨he.relabel lines, h⟩
  | .var _ _, _, _, ⟨declared, hd, he, h⟩ =>
      ⟨declared, Scopes.declare_mapLine_of_ok lines hd, Expr.Resolved.relabelOption lines he,
        h.trans (Scopes.define_mapLine declared _).symm⟩
  | .block body, _, _, ⟨⟨inner, hbody⟩, h⟩ => ⟨⟨inner, Stmt.Resolved.relabelAll body hbody⟩, h⟩
  | .branch _ yes none, _, _, ⟨he, hyes, h⟩ =>
      ⟨he.relabel lines, Stmt.Resolved.relabel yes hyes, h⟩
  | .branch _ yes (some no), _, _, ⟨he, hyes, hno, h⟩ =>
      ⟨he.relabel lines, Stmt.Resolved.relabel yes hyes, Stmt.Resolved.relabel no hno, h⟩
  | .loop _ body, _, _, ⟨he, hbody, h⟩ =>
      ⟨he.relabel lines, Stmt.Resolved.relabel body hbody, h⟩
  | .function _ _ body, _, _, ⟨hname, opened, inner, hopened, hbody⟩ => by
      refine ⟨Scopes.introduce_mapLine_of_ok lines hname, opened, inner, ?_,
        Stmt.Resolved.relabelAll body hbody⟩
      rw [Scopes.openFunction_mapLine, hopened]
      rfl
  | .ret _ _, _, _, ⟨inFunction, he, h⟩ =>
      ⟨inFunction, Expr.Resolved.relabelOption lines he, h⟩
  | .cls _, _, _, h => Scopes.introduce_mapLine_of_ok lines h

/-- The same for the statements of a list, with the same scopes after them. -/
theorem Stmt.Resolved.relabelAll : ∀ (ss : List Stmt) {scopes after : Scopes},
    Stmt.ResolvedAll l scopes ss after →
      Stmt.ResolvedAll l scopes (Stmt.relabelAll id lines ss) after
  | [], _, _, h => h
  | s :: ss, _, _, ⟨between, hs, hss⟩ =>
      ⟨between, Stmt.Resolved.relabel s hs, Stmt.Resolved.relabelAll ss hss⟩

end

end

/-! ## The same places

There is one list of levels for scopes of each depth in which nothing is renamed and no braces are
added.  On it a distance stands for itself. -/

/-- A number of scopes that both programs have, none of them renamed. -/
def Level.plain (n : Nat) : List Level :=
  List.replicate n (.shared false)

namespace Level

theorem plain_succ (n : Nat) : plain (n + 1) = .shared false :: plain n :=
  rfl

/-- A distance that is in range is the same distance on both sides, and no name is renamed there. -/
theorem locate_plain {n distance : Nat} (h : distance < n) :
    locate (plain n) distance = some (distance, false) := by
  induction n generalizing distance with
  | zero => cases h
  | succ n ih =>
      cases distance with
      | zero => rfl
      | succ distance =>
          rw [plain_succ, locate, ih (Nat.lt_of_succ_lt_succ h)]
          rfl

theorem innermost?_plain (n : Nat) : innermost? (plain n) = some false := by
  cases n <;> rfl

/-- A name that scopes of the one program declare is declared in scopes of the other one, at the
distance that the levels say. -/
def Matches (levels : List Level) (scopes scopes' : Scopes) : Prop :=
  ∀ x, (scopes.distance? x = none ∧ scopes'.distance? x = none) ∨
    ∃ distance distance', scopes.distance? x = some distance ∧
      scopes'.distance? x = some distance' ∧ locate levels distance = some (distance', false)

theorem matches_plain (scopes : Scopes) : Matches (plain scopes.length) scopes scopes := by
  intro x
  cases hd : scopes.distance? x with
  | none => exact .inl ⟨rfl, rfl⟩
  | some distance =>
      obtain ⟨s, hs, -⟩ := Scopes.distance?_eq_some hd
      exact .inr ⟨distance, distance, rfl, rfl, locate_plain (List.getElem?_eq_some_iff.1 hs).1⟩

end Level

/-- Two programs differ in identities, which two ledgers are about, and in lines. -/
structure Likeness.Plain (L : Likeness) (l l' : Ledger) (f g : Nat → Nat) : Prop where
  left : L.left = l.distances
  right : L.right = l'.distances
  lines : ∀ line, L.lines (f line) (g line)
  accesses : ∀ id < l.next, ∀ id' < l'.next, ∀ t : Token,
    L.accesses id (t.mapLine f) id' (t.mapLine g)

section
variable {L : Likeness} {l l' : Ledger} {f g : Nat → Nat}

namespace Likeness.Plain

variable (plain : L.Plain l l' f g)
include plain

theorem token (t : Token) : (t.mapLine f).Like L false (t.mapLine g) :=
  ⟨plain.lines t.line, rfl⟩

theorem tokens (ts : List Token) :
    List.Forall₂ (Token.Like L false) (ts.map (Token.mapLine f)) (ts.map (Token.mapLine g)) :=
  List.forall₂_map_left_iff.2
    (List.forall₂_map_right_iff.2 (List.forall₂_same.2 fun t _ => plain.token t))

theorem name (n : Nat) (t : Token) :
    (t.mapLine f).LikeName L (Level.plain n) (t.mapLine g) :=
  ⟨plain.token t, false, Level.innermost?_plain n, rfl⟩

/-- Accesses by one name inside scopes that match, each with what its ledger says. -/
theorem access {levels : List Level} {scopes scopes' : Scopes}
    (found : Level.Matches levels scopes scopes') {id id' : NodeId} {t : Token} {assigns : Bool}
    (h : Access.Resolved l scopes ⟨id, t, assigns⟩)
    (h' : Access.Resolved l' scopes' ⟨id', t.mapLine g, assigns⟩) :
    Access.Like L levels id id' (t.mapLine f) (t.mapLine g) := by
  have left : L.left[id]? = scopes.distance? t.lexeme := by
    rw [plain.left]
    exact h.distance
  have right : L.right[id']? = scopes'.distance? t.lexeme := by
    rw [plain.right]
    exact h'.distance
  have paired := plain.accesses id h.known id' h'.known t
  rcases found t.lexeme with ⟨hd, hd'⟩ | ⟨distance, distance', hd, hd', located⟩
  · exact .toGlobal (left.trans hd) (right.trans hd') (plain.token t) paired
  · exact .toLocal (left.trans hd) (right.trans hd') located (plain.token t) paired

end Likeness.Plain

mutual

/-- Expressions that are equal but for identities and lines, inside scopes that match. -/
theorem Expr.like_of_same (plain : L.Plain l l' f g) {levels : List Level}
    {scopes scopes' : Scopes} (found : Level.Matches levels scopes scopes') :
    ∀ (e : Expr) {e' : Expr},
    e'.relabel (fun _ => 0) id = e.relabel (fun _ => 0) g →
      e.Resolved l scopes → e'.Resolved l' scopes' →
        Expr.Like L levels (e.relabel id f) e'
  | .literal value, e', same, _, _ => by
      cases e' with
      | literal =>
          injection same with same
          rw [same]
          exact .literal value
      | _ => cases same
  | .group inner, e', same, h, h' => by
      cases e' with
      | group =>
          injection same with same
          exact .group (Expr.like_of_same plain found inner same h h')
      | _ => cases same
  | .unary operator operand, e', same, h, h' => by
      cases e' with
      | unary =>
          injection same with hop same
          obtain rfl := Token.eq_of_mapLine_id hop
          exact .unary (plain.token operator) (Expr.like_of_same plain found operand same h h')
      | _ => cases same
  | .binary left operator right, e', same, h, h' => by
      cases e' with
      | binary =>
          injection same with hl hop hr
          obtain rfl := Token.eq_of_mapLine_id hop
          obtain ⟨h, k⟩ := List.forall_mem_append.1 h
          obtain ⟨h', k'⟩ := List.forall_mem_append.1 h'
          exact .binary (Expr.like_of_same plain found left hl h h') (plain.token operator)
            (Expr.like_of_same plain found right hr k k')
      | _ => cases same
  | .logical left operator right, e', same, h, h' => by
      cases e' with
      | logical =>
          injection same with hl hop hr
          obtain rfl := Token.eq_of_mapLine_id hop
          obtain ⟨h, k⟩ := List.forall_mem_append.1 h
          obtain ⟨h', k'⟩ := List.forall_mem_append.1 h'
          exact .logical (Expr.like_of_same plain found left hl h h') (plain.token operator)
            (Expr.like_of_same plain found right hr k k')
      | _ => cases same
  | .read id name, e', same, h, h' => by
      cases e' with
      | read =>
          injection same with _ hname
          obtain rfl := Token.eq_of_mapLine_id hname
          exact .read (plain.access found (h _ List.mem_cons_self) (h' _ List.mem_cons_self))
      | _ => cases same
  | .assign id name value, e', same, h, h' => by
      cases e' with
      | assign =>
          injection same with _ hname same
          obtain rfl := Token.eq_of_mapLine_id hname
          obtain ⟨h, k⟩ := List.forall_mem_cons.1 h
          obtain ⟨h', k'⟩ := List.forall_mem_cons.1 h'
          exact .assign (plain.access found h h') (Expr.like_of_same plain found value same k k')
      | _ => cases same
  | .call callee paren arguments, e', same, h, h' => by
      cases e' with
      | call =>
          injection same with hc hparen same
          obtain rfl := Token.eq_of_mapLine_id hparen
          obtain ⟨h, k⟩ := List.forall_mem_append.1 h
          obtain ⟨h', k'⟩ := List.forall_mem_append.1 h'
          exact .call (Expr.like_of_same plain found callee hc h h') (plain.token paren)
            (Expr.likeAll_of_same plain found arguments same k k')
      | _ => cases same
  | .get object name, e', same, h, h' => by
      cases e' with
      | get =>
          injection same with same hname
          obtain rfl := Token.eq_of_mapLine_id hname
          exact .get (Expr.like_of_same plain found object same h h') (plain.token name)
      | _ => cases same
  | .set object name value, e', same, h, h' => by
      cases e' with
      | set =>
          injection same with ho hname hv
          obtain rfl := Token.eq_of_mapLine_id hname
          obtain ⟨h, k⟩ := List.forall_mem_append.1 h
          obtain ⟨h', k'⟩ := List.forall_mem_append.1 h'
          exact .set (Expr.like_of_same plain found object ho h h') (plain.token name)
            (Expr.like_of_same plain found value hv k k')
      | _ => cases same

/-- The members of a list of expressions, which are alike one by one. -/
theorem Expr.likeAll_of_same (plain : L.Plain l l' f g) {levels : List Level}
    {scopes scopes' : Scopes} (found : Level.Matches levels scopes scopes') :
    ∀ (es : List Expr) {es' : List Expr},
    Expr.relabelAll (fun _ => 0) id es' = Expr.relabelAll (fun _ => 0) g es →
      (∀ a ∈ Expr.accessesAll es, a.Resolved l scopes) →
      (∀ a ∈ Expr.accessesAll es', a.Resolved l' scopes') →
        Expr.LikeAll L levels (Expr.relabelAll id f es) es'
  | [], es', same, _, _ => by
      cases es' with
      | nil => exact .nil
      | cons => cases same
  | e :: es, es', same, h, h' => by
      cases es' with
      | nil => cases same
      | cons =>
          injection same with he hes
          obtain ⟨h, k⟩ := List.forall_mem_append.1 h
          obtain ⟨h', k'⟩ := List.forall_mem_append.1 h'
          exact .cons (Expr.like_of_same plain found e he h h')
            (Expr.likeAll_of_same plain found es hes k k')

end

theorem Expr.likeOption_of_same (plain : L.Plain l l' f g) {levels : List Level}
    {scopes scopes' : Scopes} (found : Level.Matches levels scopes scopes') {e e' : Option Expr}
    (same : e'.map (Expr.relabel (fun _ => 0) id) = e.map (Expr.relabel (fun _ => 0) g))
    (h : ∀ x ∈ e, x.Resolved l scopes) (h' : ∀ x ∈ e', x.Resolved l' scopes') :
    Expr.LikeOption L levels (e.map (Expr.relabel id f)) e' := by
  cases e with
  | none =>
      cases e' with
      | none => exact .none
      | some => cases same
  | some e =>
      cases e' with
      | none => cases same
      | some e' =>
          injection same with same
          exact .some (Expr.like_of_same plain found e same (h e rfl) (h' e' rfl))

/-- Declarations of one name inside the same scopes do the same to them. -/
theorem Scopes.introduce_same {scopes after after' : Scopes} {t : Token}
    (h : scopes.introduce t = .ok after) (h' : scopes.introduce (t.mapLine g) = .ok after') :
    after' = after := by
  rw [Scopes.introduce_mapLine_of_ok g h] at h'
  injection h' with h'
  exact h'.symm

mutual

/-- Statements that are equal but for identities and lines, inside the same scopes: so are the
scopes after them. -/
theorem Stmt.like_of_same (plain : L.Plain l l' f g) : ∀ (s : Stmt) {s' : Stmt}
    {scopes after after' : Scopes},
    s'.relabel (fun _ => 0) id = s.relabel (fun _ => 0) g →
      s.Resolved l scopes after → s'.Resolved l' scopes after' →
        Stmt.Like L (Level.plain scopes.length) (s.relabel id f) s' ∧ after' = after
  | .expression e, s', _, _, _, same, ⟨h, rfl⟩, h' => by
      cases s' with
      | expression =>
          injection same with same
          have he := Expr.like_of_same plain (Level.matches_plain _) e same h h'.1
          exact ⟨.expression he, h'.2⟩
      | _ => simp [Stmt.relabel, Stmt.relabel_branch] at same
  | .print e, s', _, _, _, same, ⟨h, rfl⟩, h' => by
      cases s' with
      | print =>
          injection same with same
          have he := Expr.like_of_same plain (Level.matches_plain _) e same h h'.1
          exact ⟨.print he, h'.2⟩
      | _ => simp [Stmt.relabel, Stmt.relabel_branch] at same
  | .var name initializer, s', scopes, _, _, same, ⟨declared, hd, h, rfl⟩, h' => by
      cases s' with
      | var =>
          injection same with hname same
          obtain rfl := Token.eq_of_mapLine_id hname
          obtain ⟨declared', hd', h', rfl⟩ := h'
          rw [Scopes.declare_mapLine_of_ok g hd] at hd'
          injection hd' with hd'
          subst hd'
          have he := Expr.likeOption_of_same plain (Level.matches_plain _) same h h'
          rw [Scopes.length_declare hd] at he
          exact ⟨.var (Level.innermost?_plain _) (plain.token name) he,
            Scopes.define_mapLine declared name⟩
      | _ => simp [Stmt.relabel, Stmt.relabel_branch] at same
  | .block body, s', scopes, _, _, same, ⟨⟨inner, h⟩, rfl⟩, h' => by
      cases s' with
      | block =>
          injection same with same
          obtain ⟨⟨inner', h'⟩, rfl⟩ := h'
          exact ⟨.block (Stmt.likeAll_of_same plain body same h h').1, rfl⟩
      | _ => simp [Stmt.relabel, Stmt.relabel_branch] at same
  | .branch condition yes none, s', scopes, _, _, same, ⟨hc, hy, rfl⟩, h' => by
      cases s' with
      | branch condition' yes' no' =>
          cases no' with
          | none =>
              injection same with sameC sameY
              obtain ⟨hc', hy', rfl⟩ := h'
              have like := Expr.like_of_same plain (Level.matches_plain _) condition sameC hc hc'
              exact ⟨.ifOnly like (Stmt.like_of_same plain yes sameY hy hy').1, rfl⟩
          | some => cases (Stmt.branch.inj same).2.2
      | _ => cases same
  | .branch condition yes (some no), s', scopes, _, _, same, ⟨hc, hy, hn, rfl⟩, h' => by
      cases s' with
      | branch condition' yes' no' =>
          cases no' with
          | none => cases (Stmt.branch.inj same).2.2
          | some =>
              injection same with sameC sameY sameN
              injection sameN with sameN
              obtain ⟨hc', hy', hn', rfl⟩ := h'
              have like := Expr.like_of_same plain (Level.matches_plain _) condition sameC hc hc'
              exact ⟨.ifElse like (Stmt.like_of_same plain yes sameY hy hy').1
                (Stmt.like_of_same plain no sameN hn hn').1, rfl⟩
      | _ => cases same
  | .loop condition body, s', scopes, _, _, same, ⟨hc, hb, rfl⟩, h' => by
      cases s' with
      | loop =>
          injection same with sameC sameB
          obtain ⟨hc', hb', rfl⟩ := h'
          have like := Expr.like_of_same plain (Level.matches_plain _) condition sameC hc hc'
          exact ⟨.loop like (Stmt.like_of_same plain body sameB hb hb').1, rfl⟩
      | _ => simp [Stmt.relabel, Stmt.relabel_branch] at same
  | .function name parameters body, s', scopes, after, _, same,
      ⟨hname, opened, inner, ho, h⟩, h' => by
      cases s' with
      | function name' parameters' body' =>
          injection same with sameN sameP sameB
          obtain rfl := Token.eq_of_mapLine_id sameN
          obtain rfl : parameters' = parameters.map (Token.mapLine g) := by
            rw [← sameP]
            exact (List.map_id _).symm
          obtain ⟨hname', opened', inner', ho', h'⟩ := h'
          obtain rfl := Scopes.introduce_same hname hname'
          rw [Scopes.openFunction_mapLine, ho] at ho'
          injection ho' with ho'
          subst ho'
          obtain ⟨t, rfl, -⟩ := Scopes.openFunction_eq_ok ho
          have hbody := (Stmt.likeAll_of_same plain body sameB h h').1
          rw [List.length_cons, Scopes.length_introduce hname, Level.plain_succ] at hbody
          exact ⟨.function (plain.name _ name) (plain.tokens parameters) hbody, rfl⟩
      | _ => simp [Stmt.relabel, Stmt.relabel_branch] at same
  | .ret keyword value, s', scopes, _, _, same, ⟨_, h, rfl⟩, h' => by
      cases s' with
      | ret =>
          injection same with hkeyword same
          obtain rfl := Token.eq_of_mapLine_id hkeyword
          obtain ⟨-, h', rfl⟩ := h'
          have he := Expr.likeOption_of_same plain (Level.matches_plain _) same h h'
          exact ⟨.ret (plain.token keyword) he, rfl⟩
      | _ => simp [Stmt.relabel, Stmt.relabel_branch] at same
  | .cls name, s', scopes, _, _, same, h, h' => by
      cases s' with
      | cls =>
          injection same with hname
          obtain rfl := Token.eq_of_mapLine_id hname
          exact ⟨.cls (plain.name _ name), Scopes.introduce_same h h'⟩
      | _ => simp [Stmt.relabel, Stmt.relabel_branch] at same

/-- The statements of a list are alike, and end in the same scopes. -/
theorem Stmt.likeAll_of_same (plain : L.Plain l l' f g) : ∀ (ss : List Stmt) {ss' : List Stmt}
    {scopes after after' : Scopes},
    Stmt.relabelAll (fun _ => 0) id ss' = Stmt.relabelAll (fun _ => 0) g ss →
      Stmt.ResolvedAll l scopes ss after → Stmt.ResolvedAll l' scopes ss' after' →
        Stmt.LikeAll L (Level.plain scopes.length) (Stmt.relabelAll id f ss) ss' ∧ after' = after
  | [], ss', _, _, _, same, h, h' => by
      cases ss' with
      | nil => exact ⟨.nil, h'.trans h.symm⟩
      | cons => cases same
  | s :: ss, ss', scopes, _, _, same, ⟨between, hs, hss⟩, h' => by
      cases ss' with
      | nil => cases same
      | cons =>
          injection same with sameS sameSS
          obtain ⟨between', hs', hss'⟩ := h'
          obtain ⟨like, rfl⟩ := Stmt.like_of_same plain s sameS hs hs'
          obtain ⟨likes, rfl⟩ := Stmt.likeAll_of_same plain ss sameSS hss hss'
          rw [hs.length] at likes
          exact ⟨.cons like likes, rfl⟩

end

end

end Lox
