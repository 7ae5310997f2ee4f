import Lox.Proofs.Likeness.Steps

/-!
# Runs side by side

Programs that mean the same, run on machines that mean the same, end alike within every bound: with
values that mean the same, or for the same reason.  What they printed is the same at all times, as
the sink is part of what machines have in common.

The recursion is on the proof that two trees mean the same, which has one constructor for each pair
of nodes that can correspond.  In particular it has one for a block with a single statement in
braces against the statement, and there one of the runs opens a frame that the other does not have.
Everything else is a pair of equal nodes, and the two evaluators take the same steps.

* `Value.Like.isTruthy`, `Value.Like.display`, … — values that mean the same are told apart by no
  operator and printed in the same way.
* `Expr.eval_like`, `Stmt.exec_like` — for expressions and statements, if calls end alike.
* `Callable.apply_like`, `interpret_like` — for calls and programs.
-/

namespace Lox

variable {L : Likeness} {w : World} {levels : List Lox.Level} {m m' : Machine}

/-! ## Values

What an operator or a condition can find out about a value, and what is printed of it, is the same
for values that mean the same. -/

namespace Value.Like

variable {v v' u u' : Value}

/-- A condition does not tell them apart. -/
theorem isTruthy (h : v.Like L w v') : v'.isTruthy = v.isTruthy := by
  cases h <;> rfl

theorem equals (hv : v.Like L w v') (hu : u.Like L w u') : v'.equals u' = v.equals u := by
  cases hv <;> cases hu <;> rfl

theorem display (h : v.Like L w v') : v'.display = v.display := by
  cases h with
  | callable i hc =>
      cases hc with
      | function hname => simp only [Value.display, Callable.display, hname.lexeme_eq]
      | _ => rfl
  | _ => rfl

end Value.Like

/-- Functions take as many arguments. -/
theorem Callable.Like.arity {c c' : Callable} (h : c.Like L w c') : c'.arity = c.arity := by
  cases h with
  | function _ _ hparameters _ => exact hparameters.length_eq.symm
  | _ => rfl

/-- The left side decides for both, or for neither. -/
theorem isDecided_like {operator operator' : Token} (h : operator.Like L false operator')
    {v v' : Value} (hv : v.Like L w v') : isDecided operator' v' = isDecided operator v := by
  unfold isDecided
  rw [h.kind, hv.isTruthy]

/-! ## Operators

Operators are blamed on their own lines, and have the same result otherwise. -/

namespace Eval.Like

variable (h : Machine.Alike L w levels m m')
include h

theorem arithmeticResult {operator operator' : Token} (hop : operator.Like L false operator')
    (x y : Float) :
    Like L levels w (arithmeticResult operator x y) (arithmeticResult operator' x y) m m'
      (Value.Like L) := by
  unfold Lox.arithmeticResult
  rw [hop.kind, hop.lexeme_eq]
  split
  case h_3 =>
    split
    · exact fail h hop.lines nofun
    · exact pure h (.number _)
  case h_8 => exact fail h hop.lines nofun
  case h_1 | h_2 => exact pure h (.number _)
  all_goals exact pure h (.bool _)

theorem unaryResult {operator operator' : Token} (hop : operator.Like L false operator')
    {v v' : Value} (hv : v.Like L w v') :
    Like L levels w (unaryResult operator v) (unaryResult operator' v') m m' (Value.Like L) := by
  unfold Lox.unaryResult
  rw [hop.kind, hop.lexeme_eq, hv.isTruthy]
  split
  · cases hv with
    | number x => exact pure h (.number _)
    | _ => exact fail h hop.lines nofun
  · exact pure h (.bool _)
  · exact fail h hop.lines nofun

/-- A sum, or the failure to make one. -/
theorem sumResult {line line' : Nat} (lines : L.lines line line') {v v' u u' : Value}
    (hv : v.Like L w v') (hu : u.Like L w u') :
    Like L levels w
      (match v, u with
        | .number x, .number y => return .number (x + y)
        | .string s, .string t => return .string (s ++ t)
        | _, _ => Eval.fail line .operandsNotAddable)
      (match v', u' with
        | .number x, .number y => return .number (x + y)
        | .string s, .string t => return .string (s ++ t)
        | _, _ => Eval.fail line' .operandsNotAddable) m m' (Value.Like L) := by
  cases hv with
  | number x =>
      cases hu with
      | number y => exact pure h (.number _)
      | _ => exact fail h lines nofun
  | string s =>
      cases hu with
      | string t => exact pure h (.string _)
      | _ => exact fail h lines nofun
  | _ => exact fail h lines nofun

theorem binaryResult {operator operator' : Token} (hop : operator.Like L false operator')
    {v v' u u' : Value} (hv : v.Like L w v') (hu : u.Like L w u') :
    Like L levels w (binaryResult v operator u) (binaryResult v' operator' u') m m'
      (Value.Like L) := by
  unfold Lox.binaryResult
  rw [hop.kind, hv.equals hu]
  split
  · exact pure h (.bool _)
  · exact pure h (.bool _)
  · exact sumResult h hop.lines hv hu
  · cases hv with
    | number x =>
        cases hu with
        | number y => exact arithmeticResult h hop x y
        | _ => exact fail h hop.lines nofun
    | _ => exact fail h hop.lines nofun

end Eval.Like

/-! ## Expressions

By recursion on the likeness of the trees, if calls end alike. -/

/-- Calls of functions that do the same end alike. -/
def Apply.Like (L : Likeness) (apply apply' : Apply) : Prop :=
  ∀ {w levels m m' c c' arguments arguments' line line'}, Machine.Alike L w levels m m' →
    Callable.Like L w c c' → List.Forall₂ (Value.Like L w) arguments arguments' →
      L.lines line line' → arguments.length = c.arity →
        Eval.Like L levels w (apply c arguments line) (apply' c' arguments' line') m m'
          (Value.Like L)

section
variable {apply apply' : Apply}

/-- Both values are called, or neither can be. -/
theorem callValue_like (happly : Apply.Like L apply apply') (h : Machine.Alike L w levels m m')
    {callee callee' : Value} (hcallee : callee.Like L w callee') {arguments arguments' : List Value}
    (harguments : List.Forall₂ (Value.Like L w) arguments arguments') {line line' : Nat}
    (lines : L.lines line line') :
    Eval.Like L levels w (callValue apply callee arguments line)
      (callValue apply' callee' arguments' line') m m' (Value.Like L) := by
  cases hcallee with
  | @callable i c c' hc =>
      simp only [callValue, hc.arity, ← harguments.length_eq]
      split
      next arity =>
        have hm := h.machine
        refine .entering h lines (happly ⟨⟨hm.left, hm.right, hm.globals, hm.frames, hm.objects,
          hm.fields, hm.callables, congrArg (· + 1) hm.depth, hm.sink, hm.clock, hm.readings⟩,
          h.chain⟩ hc harguments lines arity)
      next => exact .fail h lines nofun
  | _ => exact .fail h lines nofun

mutual

/-- **Expressions that mean the same end alike.** -/
theorem Expr.eval_like (happly : Apply.Like L apply apply') : ∀ {e e' : Expr} {w : World}
    {m m' : Machine}, e.Like L levels e' → Machine.Alike L w levels m m' →
      Eval.Like L levels w (e.eval apply) (e'.eval apply') m m' (Value.Like L)
  | _, _, w, m, m', .literal value, h => by
      refine .pure h ?_
      cases value with
      | nil => exact .nil
      | bool b => exact .bool b
      | number x => exact .number x
      | string s => exact .string s
  | _, _, w, m, m', .group he, h => by
      have inner := Expr.eval_like happly he h
      exact inner
  | _, _, w, m, m', .unary hop he, h =>
      (Expr.eval_like happly he h).bind fun _ _ _ _ _ _ h hv => .unaryResult h hop hv
  | _, _, w, m, m', .binary hx hop hy, h =>
      (Expr.eval_like happly hx h).bind fun _ _ _ _ _ _ h hv =>
        (Expr.eval_like happly hy h).bind fun _ _ _ _ _ later h hu =>
          .binaryResult h hop (hv.mono later) hu
  | _, _, w, m, m', .logical hx hop hy, h => by
      refine (Expr.eval_like happly hx h).bind fun w' v v' n n' _ h hv => ?_
      rw [isDecided_like hop hv]
      split
      · exact .pure h hv
      · exact Expr.eval_like happly hy h
  | _, _, w, m, m', .read ha, h => .readVariable h ha
  | _, _, w, m, m', .assign ha he, h =>
      (Expr.eval_like happly he h).bind fun _ _ _ _ _ _ h hv =>
        (Eval.Like.writeVariable h ha hv).bind fun _ _ _ _ _ later h _ => .pure h (hv.mono later)
  | _, _, w, m, m', .call hf hparen hargs, h =>
      (Expr.eval_like happly hf h).bind fun _ _ _ _ _ _ h hv =>
        (Expr.evalAll_like happly hargs h).bind fun _ _ _ _ _ later h hvs =>
          callValue_like happly h (hv.mono later) hvs hparen.lines
  | _, _, w, m, m', .get he hname, h => by
      refine (Expr.eval_like happly he h).bind fun w' v v' n n' _ h hv => ?_
      cases hv with
      | object i c => exact .readField h i hname
      | _ => exact .fail h hname.lines nofun
  | _, _, w, m, m', .set he hname hx, h => by
      refine (Expr.eval_like happly he h).bind fun w' v v' n n' _ h hv => ?_
      cases hv with
      | object i c =>
          refine (Expr.eval_like happly hx h).bind fun _ _ _ _ _ _ h hu => ?_
          exact (Eval.Like.writeField h i hname hu).bind fun _ _ _ _ _ later h _ =>
            .pure h (hu.mono later)
      | _ => exact .fail h hname.lines nofun

theorem Expr.evalAll_like (happly : Apply.Like L apply apply') : ∀ {es es' : List Expr} {w : World}
    {m m' : Machine}, Expr.LikeAll L levels es es' → Machine.Alike L w levels m m' →
      Eval.Like L levels w (Expr.evalAll apply es) (Expr.evalAll apply' es') m m'
        fun w' => List.Forall₂ (Value.Like L w')
  | _, _, _, _, _, .nil, h => .pure h .nil
  | _, _, _, _, _, .cons he hes, h =>
      (Expr.eval_like happly he h).bind fun _ _ _ _ _ _ h hv =>
        (Expr.evalAll_like happly hes h).bind fun _ _ _ _ _ later h hvs =>
          .pure h (.cons (hv.mono later) hvs)

end

/-- Expressions that may be missing end alike: both are missing, or neither is. -/
theorem Expr.evalOption_like (happly : Apply.Like L apply apply') {e e' : Option Expr}
    (he : Expr.LikeOption L levels e e') (h : Machine.Alike L w levels m m') :
    Eval.Like L levels w (Expr.evalOption apply e) (Expr.evalOption apply' e') m m'
      (Value.Like L) := by
  cases he with
  | none => exact .pure h .nil
  | some he => exact Expr.eval_like happly he h

/-! ## Statements

The same for statements, whose scopes may have another frame between them. -/

/-- Statements that end in the same way. -/
inductive Flow.Like (L : Likeness) (w : World) : Flow → Flow → Prop
  | normal : Like L w .normal .normal
  | returned {v v' line line'} (hv : v.Like L w v') (lines : L.lines line line') :
      Like L w (.returned v line) (.returned v' line')

theorem repeatWhile_like {condition condition' : Eval Value} {body body' : Eval Flow}
    (hcondition : ∀ {w : World} {m m' : Machine}, Machine.Alike L w levels m m' →
      Eval.Like L levels w condition condition' m m' (Value.Like L))
    (hbody : ∀ {w : World} {m m' : Machine}, Machine.Alike L w levels m m' →
      Eval.Like L levels w body body' m m' (Flow.Like L)) (rounds : Nat) {w : World}
    {m m' : Machine} (h : Machine.Alike L w levels m m') :
    Eval.Like L levels w (repeatWhile condition body rounds) (repeatWhile condition' body' rounds)
      m m' (Flow.Like L) := by
  induction rounds generalizing w m m' with
  | zero => exact .exhausted h
  | succ rounds ih =>
      refine (hcondition h).bind fun w' v v' n n' _ h hv => ?_
      rw [hv.isTruthy]
      split
      · refine (hbody h).bind fun _ _ _ _ _ _ h hflow => ?_
        cases hflow with
        | normal => exact ih h
        | returned hv lines => exact .pure h (.returned hv lines)
      · exact .pure h .normal

/-- One statement alone, as in braces that were put around it. -/
theorem Stmt.execAll_singleton (rounds : Nat) (s : Stmt) :
    Stmt.execAll apply rounds [s] = s.exec apply rounds := by
  funext m
  cases hs : s.exec apply rounds m with
  | ok flow n =>
      refine (bind_ok hs).trans ?_
      cases flow <;> rfl
  | error stop n => exact bind_error hs

mutual

/-- **Statements that mean the same end alike.** -/
theorem Stmt.exec_like (happly : Apply.Like L apply apply') (rounds : Nat) : ∀ {s s' : Stmt}
    {levels : List Lox.Level} {w : World} {m m' : Machine}, s.Like L levels s' →
      Machine.Alike L w levels m m' →
        Eval.Like L levels w (s.exec apply rounds) (s'.exec apply' rounds) m m' (Flow.Like L)
  | _, _, levels, w, m, m', .expression he, h =>
      (Expr.eval_like happly he h).bind fun _ _ _ _ _ _ h _ => .pure h .normal
  | _, _, levels, w, m, m', .print he, h => by
      refine (Expr.eval_like happly he h).bind fun _ _ _ _ _ _ h hv => ?_
      rw [hv.display]
      exact (Eval.Like.printLine h _).bind fun _ _ _ _ _ _ h _ => .pure h .normal
  | _, _, levels, w, m, m', .var shared hname he, h =>
      (Expr.evalOption_like happly he h).bind fun _ _ _ _ _ _ h hv =>
        (Eval.Like.define h shared hname.lexeme hv).bind fun _ _ _ _ _ _ h _ => .pure h .normal
  | _, _, levels, w, m, m', .block hbody, h =>
      .inScope h h.chain fun _ _ h => Stmt.execAll_like happly rounds hbody h
  | _, _, levels, w, m, m', .ifOnly he hyes, h => by
      refine (Expr.eval_like happly he h).bind fun _ _ _ _ _ _ h hv => ?_
      rw [hv.isTruthy]
      split
      · exact Stmt.exec_like happly rounds hyes h
      · exact .pure h .normal
  | _, _, levels, w, m, m', .ifElse he hyes hno, h => by
      refine (Expr.eval_like happly he h).bind fun _ _ _ _ _ _ h hv => ?_
      rw [hv.isTruthy]
      split
      · exact Stmt.exec_like happly rounds hyes h
      · exact Stmt.exec_like happly rounds hno h
  | _, _, levels, w, m, m', .loop he hbody, h =>
      repeatWhile_like (Expr.eval_like happly he) (Stmt.exec_like happly rounds hbody) rounds h
  | _, _, levels, w, m, m', .function hname hparameters hbody, h =>
      (Eval.Like.defineCallable h hname
        (.function hname.like h.chain hparameters hbody)).bind fun _ _ _ _ _ _ h _ =>
          .pure h .normal
  | _, _, levels, w, m, m', .ret hkeyword he, h =>
      (Expr.evalOption_like happly he h).bind fun _ _ _ _ _ _ h hv =>
        .pure h (.returned hv hkeyword.lines)
  | _, _, levels, w, m, m', @Stmt.Like.cls _ _ name name' hname, h => by
      have hc : Callable.Like L w (.cls name.lexeme) (.cls name'.lexeme) := by
        rw [hname.like.lexeme_eq]
        exact .cls _
      exact (Eval.Like.defineCallable h hname hc).bind fun _ _ _ _ _ _ h _ => .pure h .normal
  | s, _, levels, w, m, m', @Stmt.Like.braces _ _ _ s' allowed hs, h => by
      have same : (Stmt.block [s']).exec apply' rounds m' =
          Eval.inScope m'.env (s'.exec apply' rounds) m' := by
        show Eval.inScope m'.env (Stmt.execAll apply' rounds [s']) m' = _
        rw [Stmt.execAll_singleton]
      have inner := Eval.Like.inBraces h allowed fun h => Stmt.exec_like happly rounds hs h
      unfold Eval.Like at inner ⊢
      rwa [same]

theorem Stmt.execAll_like (happly : Apply.Like L apply apply') (rounds : Nat) :
    ∀ {ss ss' : List Stmt} {levels : List Lox.Level} {w : World} {m m' : Machine},
      Stmt.LikeAll L levels ss ss' → Machine.Alike L w levels m m' →
        Eval.Like L levels w (Stmt.execAll apply rounds ss) (Stmt.execAll apply' rounds ss') m m'
          (Flow.Like L)
  | _, _, levels, w, m, m', .nil, h => .pure h .normal
  | _, _, levels, w, m, m', .cons hs hss, h => by
      refine (Stmt.exec_like happly rounds hs h).bind fun _ _ _ _ _ _ h hflow => ?_
      cases hflow with
      | normal => exact Stmt.execAll_like happly rounds hss h
      | returned hv lines => exact .pure h (.returned hv lines)

end

end

/-! ## Calls

A call runs a body that was kept as a value, in the chain it was kept with. -/

/-- Parameters are bound to arguments that mean the same, under the names they have. -/
theorem bindParameters_like {renamed : Bool} {parameters parameters' : List Token}
    (hparameters : List.Forall₂ (Token.Like L renamed) parameters parameters')
    {arguments arguments' : List Value}
    (harguments : List.Forall₂ (Value.Like L w) arguments arguments')
    (h : Machine.Alike L w (.shared renamed :: levels) m m') :
    Eval.Like L (.shared renamed :: levels) w (bindParameters parameters arguments)
      (bindParameters parameters' arguments') m m' fun _ _ _ => True := by
  induction hparameters generalizing w m m' arguments arguments' with
  | nil => exact .pure h trivial
  | cons hp _ ih =>
      cases harguments with
      | nil => exact .pure h trivial
      | cons hv hvs =>
          refine (Eval.Like.define h rfl hp.lexeme hv).bind fun w' _ _ n n' later h _ => ?_
          exact ih (hvs.imp fun _ _ hv => hv.mono later) h

theorem HostFunction.apply_like (f : HostFunction) (h : Machine.Alike L w levels m m')
    {arguments arguments' : List Value}
    (harguments : List.Forall₂ (Value.Like L w) arguments arguments') {line line' : Nat}
    (lines : L.lines line line') :
    Eval.Like L levels w (f.apply arguments line) (f.apply arguments' line') m m'
      (Value.Like L) := by
  cases f with
  | clock => exact .readClock h
  | lastArgument _ =>
      refine .pure h ?_
      have hlast : (arguments = [] ∧ arguments' = []) ∨ ∃ v v',
          arguments.getLast? = some v ∧ arguments'.getLast? = some v' ∧ v.Like L w v' := by
        induction harguments with
        | nil => exact .inl ⟨rfl, rfl⟩
        | @cons v v' vs vs' hv _ ih =>
            refine .inr ?_
            rcases ih with ⟨rfl, rfl⟩ | ⟨u, u', hu, hu', hlike⟩
            · exact ⟨v, v', rfl, rfl, hv⟩
            · exact ⟨u, u', by simp [hu, List.getLast?_cons], by simp [hu', List.getLast?_cons],
                hlike⟩
      rcases hlast with ⟨rfl, rfl⟩ | ⟨v, v', hv, hv', hlike⟩
      · exact .nil
      · rw [hv, hv']
        exact hlike
  | failing _ message => exact .fail h lines nofun

/-- **Calls end alike**, with any bound. -/
theorem Callable.apply_like (bound : Nat) :
    Apply.Like L (Callable.apply bound) (Callable.apply bound) := by
  induction bound with
  | zero => exact fun h _ _ _ _ => .exhausted h
  | succ bound ih =>
      intro w levels m m' c c' arguments arguments' line line' h hc harguments lines _
      cases hc with
      | host f => exact f.apply_like h harguments lines
      | cls name => exact .newObject h name
      | @function inner renamed _ _ _ _ _ _ _ _ hname chain hparameters hbody =>
          refine .inScope h chain
            fun w' later (h : Machine.Alike L w' (.shared renamed :: inner) _ _) => ?_
          refine (bindParameters_like hparameters
            (harguments.imp fun _ _ hv => hv.mono later) h).bind fun _ _ _ _ _ _ h _ => ?_
          refine (Stmt.execAll_like ih bound hbody h).bind fun _ _ _ _ _ _ h hflow => .pure h ?_
          cases hflow with
          | normal => exact .nil
          | returned hv _ => exact hv

/-! ## Programs

Programs are run among the globals, which no renaming and no braces touch. -/

/-- The statements of two programs. -/
theorem executeProgram_like (bound : Nat) {program program' : List Stmt}
    (hprogram : Stmt.LikeAll L [] program program') {w : World} {m m' : Machine}
    (h : Machine.Alike L w [] m m') :
    Eval.Like L [] w (executeProgram bound program) (executeProgram bound program') m m'
      fun _ _ _ => True := by
  induction program generalizing program' w m m' with
  | nil =>
      cases hprogram
      exact .pure h trivial
  | cons s ss ih =>
      cases hprogram with
      | cons hs hss =>
          refine (Stmt.exec_like (Callable.apply_like bound) bound hs h).bind
            fun _ _ _ _ _ _ h hflow => ?_
          cases hflow with
          | normal => exact ih hss h
          | returned _ lines => exact .fail h lines nofun

/-- **Programs that mean the same end alike** within every bound, and print the same. -/
theorem interpret_like (bound : Nat) {program program' : List Stmt}
    (hprogram : Stmt.LikeAll L [] program program') (h : Machine.Alike L w [] m m') :
    Eval.Like L [] w (interpret bound program) (interpret bound program') m m'
      fun _ _ _ => True :=
  (executeProgram_like bound hprogram h).bind fun _ _ _ _ _ _ h _ => .flush h

end Lox
