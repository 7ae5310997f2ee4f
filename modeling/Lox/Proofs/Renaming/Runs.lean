import Lox.Proofs.Likeness.Resolved
import Lox.Proofs.Renaming.Resolution

/-!
# The run of a renamed program

The frames of the scope of the declaration have other keys, all other frames the same.  Every access
goes to the frame at its distance, so it looks the other name up in just those frames.

The comparison of runs is the general one; what is to be done here is to show that a program and the
renamed one mean the same in its sense.  For that the scopes around a place are listed with the one
of the declaration marked, and each access is looked at: the table has the same distance for it in
both programs, and its frame is the marked one exactly if the access was renamed.

* `Level.marked` — the scopes around a place, with the one of the declaration.
* `Likeness.Renames` — the two programs differ in the names of one scope.
* `Stmt.like_rename` — statements inside of the scope of the declaration mean the same.
* `Stmt.RenamesAll.like` — **a renamed program means the same**.
-/

namespace Lox

open Resolution

/-! ## Scopes

The scopes around a place, one of which may be marked. -/

/-- A number of scopes, the one at a distance renamed. -/
def Level.marked : Option Nat → Nat → List Level
  | some 0, n + 1 => .shared true :: plain n
  | some (depth + 1), n + 1 => .shared false :: marked (some depth) n
  | _, n => plain n

namespace Level

variable {depth : Option Nat} {n distance : Nat}

/-- None is, out of sight of the declaration. -/
theorem marked_none : marked none n = plain n := by
  cases n <;> rfl

theorem marked_succ : marked (depth.map (· + 1)) (n + 1) = .shared false :: marked depth n := by
  cases depth with
  | none => rw [marked_none]; rfl
  | some depth => rfl

/-- A distance leads to the scope at it, marked if it is the one. -/
theorem locate_marked (h : distance < n) :
    locate (marked depth n) distance = some (distance, decide (depth = some distance)) := by
  induction n generalizing depth distance with
  | zero => cases h
  | succ n ih =>
      match depth, distance with
      | none, _ => rw [marked_none, locate_plain h]; simp
      | some 0, 0 => rfl
      | some 0, distance + 1 =>
          rw [marked, locate, locate_plain (Nat.lt_of_succ_lt_succ h)]
          simp
      | some (depth + 1), 0 => rfl
      | some (depth + 1), distance + 1 =>
          rw [marked, locate, ih (Nat.lt_of_succ_lt_succ h)]
          simp

theorem innermost?_marked (h : depth = some 0 → 0 < n) :
    innermost? (marked depth n) = some (decide (depth = some 0)) := by
  match depth, n with
  | none, n => rw [marked_none, innermost?_plain]; rfl
  | some 0, 0 => exact absurd (h rfl) (Nat.lt_irrefl 0)
  | some 0, n + 1 => rfl
  | some (depth + 1), 0 => rfl
  | some (depth + 1), n + 1 => rfl

end Level

/-! ## Likeness

What differs between the programs is the one name, in the scope of its declaration. -/

/-- Two programs differ in the names of one scope. -/
structure Likeness.Renames (L : Likeness) (l : Ledger) (x y : String)
    (program program' : List Stmt) : Prop where
  unused : Stmt.Unused y program
  lines : ∀ line, L.lines line line
  rename : L.rename = Equiv.swap x y
  left : L.left = l.distances
  right : L.right = l.distances
  accesses : ∀ {id name name' assigns}, ⟨id, name, assigns⟩ ∈ Stmt.accessesAll program →
    ⟨id, name', assigns⟩ ∈ Stmt.accessesAll program' → L.accesses id name id name'

section
variable {L : Likeness} {l : Ledger} {x y : String} {program program' : List Stmt}

namespace Likeness.Renames

variable (renames : L.Renames l x y program program')
include renames

theorem token (t : Token) : t.Like L false t :=
  ⟨renames.lines t.line, rfl⟩

theorem tokens (ts : List Token) : List.Forall₂ (Token.Like L false) ts ts :=
  List.forall₂_same.2 fun t _ => renames.token t

theorem token_rename {t : Token} (h : t.lexeme ≠ y) : t.Like L true (t.rename x y) := by
  have hline : (t.rename x y).line = t.line := by
    unfold Token.rename
    split <;> rfl
  refine ⟨hline ▸ renames.lines t.line, ?_⟩
  rw [hline, Likeness.name_true, renames.rename, ← Scopes.lexeme_rename h]
  unfold Token.rename
  split <;> rfl

theorem tokens_rename {ts : List Token} (h : ∀ t ∈ ts, t.lexeme ≠ y) :
    List.Forall₂ (Token.Like L true) ts (ts.map (Token.rename x y)) :=
  List.forall₂_map_right_iff.2 (List.forall₂_same.2 fun t ht => renames.token_rename (h t ht))

/-- The name of a declaration in a scope. -/
theorem token_declared {t : Token} {depth : Option Nat} (h : t.lexeme ≠ y) :
    t.Like L (decide (depth = some 0)) (t.renameDeclared x y depth) := by
  unfold Token.renameDeclared
  split
  next inside => simpa [inside] using renames.token_rename h
  next outside => simpa [outside] using renames.token t

/-- The name of a function or class in a scope. -/
theorem name {t : Token} {depth : Option Nat} {n : Nat} (hn : depth = some 0 → 0 < n)
    (hy : t.lexeme ≠ y) (hx : depth = some 0 → t.lexeme ≠ x) :
    t.LikeName L (Level.marked depth n) t := by
  refine ⟨renames.token t, _, Level.innermost?_marked hn, ?_⟩
  by_cases h : depth = some 0
  · simp [h, renames.rename, Equiv.swap_apply_of_ne_of_ne (hx h) hy]
  · simp [h]

/-- An access goes to the same distance, by the name that the variable has there. -/
theorem access {scopes : Scopes} {depth : Option Nat} {id : NodeId} {t : Token} {assigns : Bool}
    (h : Access.Resolved l scopes ⟨id, t, assigns⟩)
    (mem : ⟨id, t, assigns⟩ ∈ Stmt.accessesAll program)
    (mem' : ⟨id, t.renameAccess l.distances x y depth id, assigns⟩ ∈ Stmt.accessesAll program') :
    Access.Like L (Level.marked depth scopes.length) id id t
      (t.renameAccess l.distances x y depth id) := by
  have hy : t.lexeme ≠ y := renames.unused.accesses _ mem
  have distance : l.distances[id]? = scopes.distance? t.lexeme := h.distance
  have left : L.left[id]? = l.distances[id]? := by rw [renames.left]
  have right : L.right[id]? = l.distances[id]? := by rw [renames.right]
  have paired := renames.accesses mem mem'
  cases hd : scopes.distance? t.lexeme with
  | none =>
      have same : t.renameAccess l.distances x y depth id = t := by
        refine if_neg fun ⟨inside, found⟩ => ?_
        rw [← found, distance, hd] at inside
        cases inside
      rw [same] at paired ⊢
      rw [distance, hd] at left right
      exact .toGlobal left right (renames.token t) paired
  | some d =>
      obtain ⟨s, hs, -⟩ := Scopes.distance?_eq_some hd
      have located : Level.locate (Level.marked depth scopes.length) d = _ :=
        Level.locate_marked (List.getElem?_eq_some_iff.1 hs).1
      have like : t.Like L (decide (depth = some d)) (t.renameAccess l.distances x y depth id) := by
        unfold Token.renameAccess
        rw [distance, hd]
        by_cases here : depth = some d
        · rw [if_pos ⟨here ▸ rfl, here.symm⟩, decide_eq_true here]
          exact renames.token_rename hy
        · rw [if_neg fun h => here h.2.symm, decide_eq_false here]
          exact renames.token t
      rw [distance, hd] at left right
      exact .toLocal left right located like paired

end Likeness.Renames

/-! ## Inside of the scope

Every access is renamed or not according to the table, and declarations are if they stand in the
scope itself. -/

mutual

/-- An expression with the other name means the same. -/
theorem Expr.like_rename (renames : L.Renames l x y program program') {scopes : Scopes}
    {depth : Option Nat} : ∀ (e : Expr),
    e.Resolved l scopes → e.accesses ⊆ Stmt.accessesAll program →
    (e.rename l.distances x y depth).accesses ⊆ Stmt.accessesAll program' →
      Expr.Like L (Level.marked depth scopes.length) e (e.rename l.distances x y depth)
  | .literal value, _, _, _ => .literal value
  | .group inner, h, mem, mem' => .group (Expr.like_rename renames inner h mem mem')
  | .unary operator operand, h, mem, mem' =>
      .unary (renames.token operator) (Expr.like_rename renames operand h mem mem')
  | .binary left operator right, h, mem, mem' => by
      obtain ⟨hl, hr⟩ := List.forall_mem_append.1 h
      obtain ⟨memL, memR⟩ := List.append_subset.1 mem
      obtain ⟨memL', memR'⟩ := List.append_subset.1 mem'
      exact .binary (Expr.like_rename renames left hl memL memL') (renames.token operator)
        (Expr.like_rename renames right hr memR memR')
  | .logical left operator right, h, mem, mem' => by
      obtain ⟨hl, hr⟩ := List.forall_mem_append.1 h
      obtain ⟨memL, memR⟩ := List.append_subset.1 mem
      obtain ⟨memL', memR'⟩ := List.append_subset.1 mem'
      exact .logical (Expr.like_rename renames left hl memL memL') (renames.token operator)
        (Expr.like_rename renames right hr memR memR')
  | .read id name, h, mem, mem' =>
      .read (renames.access (h _ List.mem_cons_self) (mem List.mem_cons_self)
        (mem' List.mem_cons_self))
  | .assign id name value, h, mem, mem' => by
      obtain ⟨ha, hv⟩ := List.forall_mem_cons.1 h
      obtain ⟨memA, memV⟩ := List.cons_subset.1 mem
      obtain ⟨memA', memV'⟩ := List.cons_subset.1 mem'
      exact .assign (renames.access ha memA memA') (Expr.like_rename renames value hv memV memV')
  | .call callee paren arguments, h, mem, mem' => by
      obtain ⟨hc, ha⟩ := List.forall_mem_append.1 h
      obtain ⟨memC, memA⟩ := List.append_subset.1 mem
      obtain ⟨memC', memA'⟩ := List.append_subset.1 mem'
      exact .call (Expr.like_rename renames callee hc memC memC') (renames.token paren)
        (Expr.likeAll_rename renames arguments ha memA memA')
  | .get object name, h, mem, mem' =>
      .get (Expr.like_rename renames object h mem mem') (renames.token name)
  | .set object name value, h, mem, mem' => by
      obtain ⟨ho, hv⟩ := List.forall_mem_append.1 h
      obtain ⟨memO, memV⟩ := List.append_subset.1 mem
      obtain ⟨memO', memV'⟩ := List.append_subset.1 mem'
      exact .set (Expr.like_rename renames object ho memO memO') (renames.token name)
        (Expr.like_rename renames value hv memV memV')

theorem Expr.likeAll_rename (renames : L.Renames l x y program program') {scopes : Scopes}
    {depth : Option Nat} : ∀ (es : List Expr),
    (∀ a ∈ Expr.accessesAll es, a.Resolved l scopes) →
    Expr.accessesAll es ⊆ Stmt.accessesAll program →
    Expr.accessesAll (Expr.renameAll l.distances x y depth es) ⊆ Stmt.accessesAll program' →
      Expr.LikeAll L (Level.marked depth scopes.length) es
        (Expr.renameAll l.distances x y depth es)
  | [], _, _, _ => .nil
  | e :: es, h, mem, mem' => by
      obtain ⟨he, hes⟩ := List.forall_mem_append.1 h
      obtain ⟨memE, memES⟩ := List.append_subset.1 mem
      obtain ⟨memE', memES'⟩ := List.append_subset.1 mem'
      exact .cons (Expr.like_rename renames e he memE memE')
        (Expr.likeAll_rename renames es hes memES memES')

end

theorem Expr.likeOption_rename (renames : L.Renames l x y program program') {scopes : Scopes}
    {depth : Option Nat} {e : Option Expr} (h : ∀ x ∈ e, x.Resolved l scopes)
    (mem : e.toList.flatMap Expr.accesses ⊆ Stmt.accessesAll program)
    (mem' : (e.map (Expr.rename l.distances x y depth)).toList.flatMap Expr.accesses ⊆
      Stmt.accessesAll program') :
    Expr.LikeOption L (Level.marked depth scopes.length) e
      (e.map (Expr.rename l.distances x y depth)) := by
  cases e with
  | none => exact .none
  | some e =>
      exact .some (Expr.like_rename renames e (h e rfl) (by simpa using mem) (by simpa using mem'))

mutual

/-- **A statement inside of the scope of the declaration means the same** with the other name.
Functions and classes of that scope have other names. -/
theorem Stmt.like_rename (renames : L.Renames l x y program program') : ∀ (s : Stmt)
    (depth : Option Nat) {scopes after : Scopes}, s.Resolved l scopes after → s.Shaped →
    s.accesses ⊆ Stmt.accessesAll program →
    (s.rename l.distances x y depth).accesses ⊆ Stmt.accessesAll program' →
    s.declarations ⊆ Stmt.declarationsAll program →
    (depth = some 0 → 0 < scopes.length ∧ s.callableName? ≠ some x) →
      s.Like L (Level.marked depth scopes.length) (s.rename l.distances x y depth)
  | .expression e, depth, _, _, h, _, mem, mem', _, _ =>
      .expression (Expr.like_rename renames e h.1 mem mem')
  | .print e, depth, _, _, h, _, mem, mem', _, _ =>
      .print (Expr.like_rename renames e h.1 mem mem')
  | .var name initializer, depth, scopes, _, h, _, mem, mem', decl, hx => by
      obtain ⟨declared, hd, h, -⟩ := h
      have hn : name.lexeme ≠ y := renames.unused.declarations _ (decl List.mem_cons_self)
      have he := Expr.likeOption_rename renames h mem mem'
      rw [Scopes.length_declare hd] at he
      exact .var (Level.innermost?_marked fun h => (hx h).1) (renames.token_declared hn) he
  | .block body, depth, scopes, _, h, shaped, mem, mem', decl, _ => by
      obtain ⟨⟨inner, h⟩, -⟩ := h
      have hbody := Stmt.likeAll_rename renames body (depth.map (· + 1)) h shaped mem mem' decl
        (by simp)
      rw [Scopes.openBlock, List.length_cons, Level.marked_succ] at hbody
      exact .block hbody
  | .branch condition yes none, depth, scopes, _, h, ⟨plain, shaped⟩, mem, mem', decl, hx => by
      obtain ⟨hc, hy, -⟩ := h
      obtain ⟨memC, memY⟩ := List.append_subset.1 mem
      obtain ⟨memC', memY'⟩ := List.append_subset.1 mem'
      exact .ifOnly (Expr.like_rename renames condition hc memC memC')
        (Stmt.like_rename renames yes depth hy shaped memY memY' decl
          fun h => ⟨(hx h).1, Stmt.callableName?_ne plain⟩)
  | .branch condition yes (some no), depth, scopes, _, h, ⟨⟨plainY, shapedY⟩, plainN, shapedN⟩,
      mem, mem', decl, hx => by
      obtain ⟨hc, hy, hn, -⟩ := h
      obtain ⟨memCY, memN⟩ := List.append_subset.1 mem
      obtain ⟨memC, memY⟩ := List.append_subset.1 memCY
      obtain ⟨memCY', memN'⟩ := List.append_subset.1 mem'
      obtain ⟨memC', memY'⟩ := List.append_subset.1 memCY'
      obtain ⟨declY, declN⟩ := List.append_subset.1 decl
      exact .ifElse (Expr.like_rename renames condition hc memC memC')
        (Stmt.like_rename renames yes depth hy shapedY memY memY' declY
          fun h => ⟨(hx h).1, Stmt.callableName?_ne plainY⟩)
        (Stmt.like_rename renames no depth hn shapedN memN memN' declN
          fun h => ⟨(hx h).1, Stmt.callableName?_ne plainN⟩)
  | .loop condition body, depth, scopes, _, h, ⟨plain, shaped⟩, mem, mem', decl, hx => by
      obtain ⟨hc, hb, -⟩ := h
      obtain ⟨memC, memB⟩ := List.append_subset.1 mem
      obtain ⟨memC', memB'⟩ := List.append_subset.1 mem'
      exact .loop (Expr.like_rename renames condition hc memC memC')
        (Stmt.like_rename renames body depth hb shaped memB memB' decl
          fun h => ⟨(hx h).1, Stmt.callableName?_ne plain⟩)
  | .function name parameters body, depth, scopes, _, h, shaped, mem, mem', decl, hx => by
      obtain ⟨hname, opened, inner, ho, h⟩ := h
      obtain ⟨declN, declPB⟩ := List.cons_subset.1 decl
      obtain ⟨-, declB⟩ := List.append_subset.1 declPB
      have hn : name.lexeme ≠ y := renames.unused.declarations _ declN
      have hbody := Stmt.likeAll_rename renames body (depth.map (· + 1)) h shaped mem mem' declB
        (by simp)
      obtain ⟨t, rfl, -⟩ := Scopes.openFunction_eq_ok ho
      rw [List.length_cons, Scopes.length_introduce hname, Level.marked_succ] at hbody
      exact .function (renames.name (fun h => (hx h).1) hn
        fun h same => (hx h).2 (congrArg some same)) (renames.tokens parameters) hbody
  | .ret keyword value, depth, _, _, h, _, mem, mem', _, _ =>
      .ret (renames.token keyword) (Expr.likeOption_rename renames h.2.1 mem mem')
  | .cls name, depth, scopes, _, h, _, _, _, decl, hx =>
      .cls (renames.name (fun h => (hx h).1)
        (renames.unused.declarations _ (decl List.mem_cons_self))
        fun h same => (hx h).2 (congrArg some same))

theorem Stmt.likeAll_rename (renames : L.Renames l x y program program') : ∀ (ss : List Stmt)
    (depth : Option Nat) {scopes after : Scopes}, Stmt.ResolvedAll l scopes ss after →
    Stmt.ShapedAll ss → Stmt.accessesAll ss ⊆ Stmt.accessesAll program →
    Stmt.accessesAll (Stmt.renameAll l.distances x y depth ss) ⊆ Stmt.accessesAll program' →
    Stmt.declarationsAll ss ⊆ Stmt.declarationsAll program →
    (depth = some 0 → 0 < scopes.length ∧ ∀ s ∈ ss, s.callableName? ≠ some x) →
      Stmt.LikeAll L (Level.marked depth scopes.length) ss
        (Stmt.renameAll l.distances x y depth ss)
  | [], _, _, _, _, _, _, _, _, _ => .nil
  | s :: ss, depth, scopes, _, ⟨between, hs, hss⟩, ⟨shapedS, shapedSS⟩, mem, mem', decl, hx => by
      obtain ⟨memS, memSS⟩ := List.append_subset.1 mem
      obtain ⟨memS', memSS'⟩ := List.append_subset.1 mem'
      obtain ⟨declS, declSS⟩ := List.append_subset.1 decl
      have others := Stmt.likeAll_rename renames ss depth hss shapedSS memSS memSS' declSS
        fun h => ⟨by rw [hs.length]; exact (hx h).1, (List.forall_mem_cons.1 (hx h).2).2⟩
      rw [hs.length] at others
      exact .cons (Stmt.like_rename renames s depth hs shapedS memS memS' declS
        fun h => ⟨(hx h).1, (List.forall_mem_cons.1 (hx h).2).1⟩) others

end

/-! ## Around the scope -/

/-- An expression outside of the scope of the declaration means the same. -/
theorem Expr.like_unrenamed (renames : L.Renames l x y program program') {scopes : Scopes} (e : Expr)
    (h : e.Resolved l scopes) (mem : e.accesses ⊆ Stmt.accessesAll program)
    (mem' : e.accesses ⊆ Stmt.accessesAll program') :
    Expr.Like L (Level.plain scopes.length) e e := by
  have like : Expr.Like L (Level.marked none scopes.length) e (e.rename l.distances x y none) :=
    Expr.like_rename renames e h mem (by rwa [Expr.rename_none])
  rwa [Level.marked_none, Expr.rename_none] at like

theorem Stmt.like_unrenamed (renames : L.Renames l x y program program') {scopes after : Scopes}
    (s : Stmt) (h : s.Resolved l scopes after) (shaped : s.Shaped)
    (mem : s.accesses ⊆ Stmt.accessesAll program) (mem' : s.accesses ⊆ Stmt.accessesAll program')
    (decl : s.declarations ⊆ Stmt.declarationsAll program) :
    s.Like L (Level.plain scopes.length) s := by
  have like : s.Like L (Level.marked none scopes.length) (s.rename l.distances x y none) :=
    Stmt.like_rename renames s none h shaped mem (by rwa [Stmt.rename_none]) decl (by simp)
  rwa [Level.marked_none, Stmt.rename_none] at like

theorem Stmt.likeAll_unrenamed (renames : L.Renames l x y program program')
    {scopes after : Scopes} (ss : List Stmt) (h : Stmt.ResolvedAll l scopes ss after)
    (shaped : Stmt.ShapedAll ss) (mem : Stmt.accessesAll ss ⊆ Stmt.accessesAll program)
    (mem' : Stmt.accessesAll ss ⊆ Stmt.accessesAll program')
    (decl : Stmt.declarationsAll ss ⊆ Stmt.declarationsAll program) :
    Stmt.LikeAll L (Level.plain scopes.length) ss ss := by
  have like : Stmt.LikeAll L (Level.marked none scopes.length) ss
      (Stmt.renameAll l.distances x y none ss) :=
    Stmt.likeAll_rename renames ss none h shaped mem (by rwa [Stmt.renameAll_none]) decl (by simp)
  rwa [Level.marked_none, Stmt.renameAll_none] at like

mutual

/-- **A statement with a renamed local means the same.** -/
theorem Stmt.Renames.like (renames : L.Renames l x y program program') : ∀ {s s' : Stmt},
    Stmt.Renames l.distances x y s s' → ∀ {scopes after : Scopes}, s.Resolved l scopes after →
    s.Shaped → s.accesses ⊆ Stmt.accessesAll program →
    s'.accesses ⊆ Stmt.accessesAll program' → s.declarations ⊆ Stmt.declarationsAll program →
      s.Like L (Level.plain scopes.length) s'
  | _, _, .block declared, scopes, _, h, shaped, mem, mem', decl => by
      obtain ⟨⟨inner, h⟩, -⟩ := h
      exact .block (Stmt.likeAll_rename renames _ (some 0) h shaped mem mem' decl fun _ =>
        ⟨Nat.succ_pos _, h.callableName?_ne (.inr declared)⟩)
  | _, _, @Stmt.Renames.function _ _ _ name _ _ declared, scopes, _, h, shaped, mem, mem',
      decl => by
      obtain ⟨hname, opened, inner, ho, h⟩ := h
      obtain ⟨declN, declPB⟩ := List.cons_subset.1 decl
      obtain ⟨declP, declB⟩ := List.append_subset.1 declPB
      have hn : name.lexeme ≠ y := renames.unused.declarations _ declN
      have other := h.callableName?_ne_of_function ho declared
      obtain ⟨t, rfl, -⟩ := Scopes.openFunction_eq_ok ho
      have hbody := Stmt.likeAll_rename renames _ (some 0) h shaped mem mem' declB fun _ =>
        ⟨Nat.succ_pos _, other⟩
      rw [List.length_cons, Scopes.length_introduce hname] at hbody
      exact .function ⟨renames.token name, false, Level.innermost?_plain _, rfl⟩
        (renames.tokens_rename fun p hp => renames.unused.declarations p (declP hp)) hbody
  | _, _, .inBlock hbody, scopes, _, h, shaped, mem, mem', decl => by
      obtain ⟨⟨inner, h⟩, -⟩ := h
      exact .block (hbody.like renames h shaped mem mem' decl)
  | _, _, @Stmt.Renames.inYes _ _ _ condition _ _ none hyes, scopes, _, h, shaped, mem, mem',
      decl => by
      obtain ⟨hc, hy, -⟩ := h
      obtain ⟨memC, memY⟩ := List.append_subset.1 mem
      obtain ⟨memC', memY'⟩ := List.append_subset.1 mem'
      exact .ifOnly (Expr.like_unrenamed renames condition hc memC memC')
        (hyes.like renames hy shaped.2 memY memY' decl)
  | _, _, @Stmt.Renames.inYes _ _ _ condition _ _ (some no) hyes, scopes, _, h, shaped, mem, mem',
      decl => by
      obtain ⟨hc, hy, hn, -⟩ := h
      obtain ⟨memCY, memN⟩ := List.append_subset.1 mem
      obtain ⟨memC, memY⟩ := List.append_subset.1 memCY
      obtain ⟨memCY', memN'⟩ := List.append_subset.1 mem'
      obtain ⟨memC', memY'⟩ := List.append_subset.1 memCY'
      obtain ⟨declY, declN⟩ := List.append_subset.1 decl
      exact .ifElse (Expr.like_unrenamed renames condition hc memC memC')
        (hyes.like renames hy shaped.1.2 memY memY' declY)
        (Stmt.like_unrenamed renames no hn shaped.2.2 memN memN' declN)
  | _, _, @Stmt.Renames.inNo _ _ _ condition yes _ _ hno, scopes, _, h, shaped, mem, mem',
      decl => by
      obtain ⟨hc, hy, hn, -⟩ := h
      obtain ⟨memCY, memN⟩ := List.append_subset.1 mem
      obtain ⟨memC, memY⟩ := List.append_subset.1 memCY
      obtain ⟨memCY', memN'⟩ := List.append_subset.1 mem'
      obtain ⟨memC', memY'⟩ := List.append_subset.1 memCY'
      obtain ⟨declY, declN⟩ := List.append_subset.1 decl
      exact .ifElse (Expr.like_unrenamed renames condition hc memC memC')
        (Stmt.like_unrenamed renames yes hy shaped.1.2 memY memY' declY)
        (hno.like renames hn shaped.2.2 memN memN' declN)
  | _, _, @Stmt.Renames.inLoop _ _ _ condition _ _ hbody, scopes, _, h, shaped, mem, mem',
      decl => by
      obtain ⟨hc, hb, -⟩ := h
      obtain ⟨memC, memB⟩ := List.append_subset.1 mem
      obtain ⟨memC', memB'⟩ := List.append_subset.1 mem'
      exact .loop (Expr.like_unrenamed renames condition hc memC memC')
        (hbody.like renames hb shaped.2 memB memB' decl)
  | _, _, @Stmt.Renames.inFunction _ _ _ name parameters _ _ hbody, scopes, _, h, shaped, mem,
      mem', decl => by
      obtain ⟨hname, opened, inner, ho, h⟩ := h
      obtain ⟨-, declPB⟩ := List.cons_subset.1 decl
      obtain ⟨-, declB⟩ := List.append_subset.1 declPB
      obtain ⟨t, rfl, -⟩ := Scopes.openFunction_eq_ok ho
      have likes := hbody.like renames h shaped mem mem' declB
      rw [List.length_cons, Scopes.length_introduce hname, Level.plain_succ] at likes
      exact .function ⟨renames.token name, false, Level.innermost?_plain _, rfl⟩
        (renames.tokens parameters) likes

theorem Stmt.RenamesAll.like (renames : L.Renames l x y program program') :
    ∀ {ss ss' : List Stmt}, Stmt.RenamesAll l.distances x y ss ss' → ∀ {scopes after : Scopes},
    Stmt.ResolvedAll l scopes ss after → Stmt.ShapedAll ss →
    Stmt.accessesAll ss ⊆ Stmt.accessesAll program →
    Stmt.accessesAll ss' ⊆ Stmt.accessesAll program' →
    Stmt.declarationsAll ss ⊆ Stmt.declarationsAll program →
      Stmt.LikeAll L (Level.plain scopes.length) ss ss'
  | _, _, @Stmt.RenamesAll.here _ _ _ _ _ ss hs, scopes, _, ⟨between, h, others⟩,
      ⟨shaped, shapedSS⟩, mem, mem', decl => by
      obtain ⟨memS, memSS⟩ := List.append_subset.1 mem
      obtain ⟨memS', memSS'⟩ := List.append_subset.1 mem'
      obtain ⟨declS, declSS⟩ := List.append_subset.1 decl
      have likes := Stmt.likeAll_unrenamed renames ss others shapedSS memSS memSS' declSS
      rw [h.length] at likes
      exact .cons (hs.like renames h shaped memS memS' declS) likes
  | _, _, @Stmt.RenamesAll.there _ _ _ s _ _ hss, scopes, _, ⟨between, h, others⟩,
      ⟨shaped, shapedSS⟩, mem, mem', decl => by
      obtain ⟨memS, memSS⟩ := List.append_subset.1 mem
      obtain ⟨memS', memSS'⟩ := List.append_subset.1 mem'
      obtain ⟨declS, declSS⟩ := List.append_subset.1 decl
      have likes := hss.like renames others shapedSS memSS memSS' declSS
      rw [h.length] at likes
      exact .cons (Stmt.like_unrenamed renames s h shaped memS memS' declS) likes

end

end

end Lox
