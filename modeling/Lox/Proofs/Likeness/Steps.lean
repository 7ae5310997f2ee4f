import Lox.Proofs.Likeness.Machines

/-!
# Steps side by side

Each operation on the machine, taken on machines that mean the same, leaves machines that mean the
same.

A comparison of two runs has three sources of difference: names, lines and frames.  Frames are
paired by a world, a list that says for each frame of the first machine which frame of the second it
is and whether the renamed scope is what it was made for; a world only grows.  `Eval.Like` is a
statement about two steps on two machines at once, with the world before and a world after.  Since
all operations on the machine have such a lemma, no later proof looks at a machine.

* `Stop.Like` — failures that differ in the line and in the name of an access.
* `Eval.Like` — steps that end alike when they start alike, with `Eval.Like.bind` for sequences.
* `Eval.Like.readVariable`, `Eval.Like.inScope`, … — one lemma for each operation.
-/

namespace Lox

/-! ## Failures -/

section
variable (L : Likeness)

/-- Steps that did not yield a result stopped for the same reason. -/
inductive Stop.Like : Stop → Stop → Prop
  | exhausted : Like .exhausted .exhausted
  | runtime {line line' fault} (lines : L.lines line line')
      (named : ∀ x, fault ≠ .undefinedVariable x) :
      Like (.failed (.runtime line fault)) (.failed (.runtime line' fault))
  /-- Each program names its own access. -/
  | undefined {levels id id' name name'} (h : Access.Like L levels id id' name name') :
      Like (Eval.failure name.line (.undefinedVariable name.lexeme))
        (Eval.failure name'.line (.undefinedVariable name'.lexeme))
  | output (fault : OutputFault) : Like (.failed (.output fault)) (.failed (.output fault))

end

/-! ## Steps

Two steps end alike: both yield values that mean the same, or both fail for the same reason, or both
give up; and the machines that they leave mean the same in a later world. -/

/-- What steps leave of machines at the same place: they are still there. -/
structure Machine.Leads (L : Likeness) (levels : List Lox.Level) (w w' : World)
    (m m' n n' : Machine) : Prop where
  later : w <+: w'
  alike : Machine.Alike L w' levels n n'
  env : n.env = m.env
  env' : n'.env = m'.env

namespace Machine.Leads

variable {L : Likeness} {levels : List Lox.Level} {w w' w'' : World} {m m' n n' k k' : Machine}

theorem of_alike (h : Alike L w levels n n') (env : n.env = m.env) (env' : n'.env = m'.env) :
    Leads L levels w w m m' n n' :=
  ⟨List.prefix_refl w, h, env, env'⟩

/-- What two steps lead to, one after the other. -/
theorem trans (h : Leads L levels w w' m m' n n') (h' : Leads L levels w' w'' n n' k k') :
    Leads L levels w w'' m m' k k' :=
  ⟨h.later.trans h'.later, h'.alike, h'.env.trans h.env, h'.env'.trans h.env'⟩

end Machine.Leads

/-- Steps that end alike, inside the given scopes. -/
def Eval.Like {α α' : Type} (L : Likeness) (levels : List Lox.Level) (w : World) (step : Eval α)
    (step' : Eval α') (m m' : Machine) (Q : World → α → α' → Prop) : Prop :=
  match step m, step' m' with
  | .ok a n, .ok a' n' => ∃ w', Machine.Leads L levels w w' m m' n n' ∧ Q w' a a'
  | .error stop n, .error stop' n' =>
    ∃ w', Machine.Leads L levels w w' m m' n n' ∧ Stop.Like L stop stop'
  | _, _ => False

namespace Eval.Like

variable {α α' β β' : Type} {L : Likeness} {levels : List Lox.Level} {w : World} {m m' : Machine}

/-- Two successes that leave the world as it is. -/
theorem of_ok {step : Eval α} {step' : Eval α'} {Q : World → α → α' → Prop} {a : α} {a' : α'}
    {n n' : Machine} (hs : step m = .ok a n) (hs' : step' m' = .ok a' n')
    (h : Machine.Leads L levels w w m m' n n') (hq : Q w a a') :
    Like L levels w step step' m m' Q := by
  simp only [Like, hs, hs']
  exact ⟨w, h, hq⟩

/-- Two failures that leave the machines as they are. -/
theorem of_error {step : Eval α} {step' : Eval α'} {Q : World → α → α' → Prop} {stop stop' : Stop}
    (hs : step m = .error stop m) (hs' : step' m' = .error stop' m')
    (h : Machine.Alike L w levels m m') (hstop : Stop.Like L stop stop') :
    Like L levels w step step' m m' Q := by
  simp only [Like, hs, hs']
  exact ⟨w, .of_alike h rfl rfl, hstop⟩

theorem pure {Q : World → α → α' → Prop} {a : α} {a' : α'} (h : Machine.Alike L w levels m m')
    (hq : Q w a a') : Like L levels w (pure a) (pure a') m m' Q :=
  of_ok rfl rfl (.of_alike h rfl rfl) hq

theorem exhausted {Q : World → α → α' → Prop} (h : Machine.Alike L w levels m m') :
    Like L levels w exhausted exhausted m m' Q :=
  of_error rfl rfl h .exhausted

/-- Both fail, for a reason that is no variable. -/
theorem fail {Q : World → α → α' → Prop} {line line' : Nat} {fault : RuntimeFault}
    (h : Machine.Alike L w levels m m') (lines : L.lines line line')
    (named : ∀ x, fault ≠ .undefinedVariable x) :
    Like L levels w (fail line fault) (fail line' fault) m m' Q :=
  of_error rfl rfl h (.runtime lines named)

/-- One step after another; the second ones have to end alike in every later world. -/
theorem bind {x : Eval α} {x' : Eval α'} {f : α → Eval β} {f' : α' → Eval β'}
    {Q : World → α → α' → Prop} {R : World → β → β' → Prop} (hx : Like L levels w x x' m m' Q)
    (hf : ∀ w' a a' n n', w <+: w' → Machine.Alike L w' levels n n' → Q w' a a' →
      Like L levels w' (f a) (f' a') n n' R) :
    Like L levels w (x >>= f) (x' >>= f') m m' R := by
  unfold Like at hx
  split at hx
  next a n a' n' hm hm' =>
    obtain ⟨w', leads, hq⟩ := hx
    have hfa := hf w' a a' n n' leads.later leads.alike hq
    unfold Like at hfa ⊢
    rw [bind_ok hm, bind_ok hm']
    split at hfa
    next =>
      obtain ⟨w'', leads', hr⟩ := hfa
      exact ⟨w'', leads.trans leads', hr⟩
    next =>
      obtain ⟨w'', leads', hstop⟩ := hfa
      exact ⟨w'', leads.trans leads', hstop⟩
    next => exact hfa.elim
  next stop n stop' n' hm hm' =>
    unfold Like
    rw [bind_error hm, bind_error hm']
    exact hx
  next => exact hx.elim

end Eval.Like

/-! ## The frames

Frames that are paired bind the same names to values that mean the same, up to the renaming. -/

namespace Frames.Like

variable {L : Likeness} {w : World} {frames frames' : Frames Value}

/-- A frame that is paired exists. -/
theorem lt (h : Frames.Like L w frames frames') {f : FrameId} {p : FrameId × Bool}
    (hf : w[f]? = some p) : f < frames.size :=
  h.size ▸ (List.getElem?_eq_some_iff.1 hf).1

theorem lt' (h : Frames.Like L w frames frames') {f f' : FrameId} {renamed : Bool}
    (hf : w[f]? = some (f', renamed)) : f' < frames'.size :=
  h.range _ (List.mem_of_getElem? hf)

/-- Different frames are stood for by different frames. -/
theorem inj (h : Frames.Like L w frames frames') {f g f' : FrameId} {r s : Bool}
    (hf : w[f]? = some (f', r)) (hg : w[g]? = some (f', s)) : f = g := by
  have hlt : f < (w.map Prod.fst).length := by
    simpa using (List.getElem?_eq_some_iff.1 hf).1
  refine (List.getElem?_inj hlt h.nodup).1 ?_
  simp only [List.getElem?_map, hf, hg, Option.map_some]

/-- A name is bound in both, and is called what it is called there. -/
theorem write (h : Frames.Like L w frames frames') {f f' : FrameId} {renamed : Bool}
    (hf : w[f]? = some (f', renamed)) (x : String) {v v' : Value} (hv : v.Like L w v') :
    Frames.Like L w (frames.write f x v) (frames'.write f' (L.name renamed x) v') := by
  refine ⟨by simpa using h.size, fun p hp => by simpa using h.range p hp, h.nodup,
    fun g g' r hg => ?_, fun hb => by simpa using h.aligned hb⟩
  rw [Frames.bindings_write, Frames.bindings_write]
  by_cases heq : g = f
  · subst heq
    obtain ⟨rfl, rfl⟩ := Prod.mk.inj (Option.some.inj (hg.symm.trans hf))
    rw [if_pos ⟨rfl, h.lt hf⟩, if_pos ⟨rfl, h.lt' hf⟩]
    exact (h.bindings g g' r hg).insert x hv
  · have hne : g' ≠ f' := by
      rintro rfl
      exact heq (h.inj hg hf)
    rw [if_neg (fun hc => heq hc.1), if_neg (fun hc => hne hc.1)]
    exact h.bindings g g' r hg

/-- A frame that is yet to be made binds nothing. -/
theorem bindings_next (frames : Frames Value) : frames.bindings frames.size = [] := by
  simp [Frames.bindings]

theorem grow (h : Frames.Like L w frames frames') (renamed : Bool) :
    Frames.Like L (w ++ [(frames'.next, renamed)]) frames.grow frames'.grow := by
  have later : w <+: w ++ [(frames'.next, renamed)] := List.prefix_append _ _
  have cases_ {f f' : FrameId} {r : Bool}
      (hf : (w ++ [(frames'.next, renamed)])[f]? = some (f', r)) :
      w[f]? = some (f', r) ∨ (f = frames.size ∧ f' = frames'.size) := by
    rw [List.getElem?_append] at hf
    split at hf
    next => exact .inl hf
    next hlt =>
      have hlen : f - w.length = 0 := by
        have := (List.getElem?_eq_some_iff.1 hf).1
        simpa using this
      rw [hlen] at hf
      obtain ⟨rfl, -⟩ := Prod.mk.inj (Option.some.inj hf)
      refine .inr ⟨?_, rfl⟩
      rw [← h.size]
      exact Nat.le_antisymm (Nat.sub_eq_zero_iff_le.1 hlen) (Nat.not_lt.1 hlt)
  refine ⟨by simp [h.size], fun p hp => ?_, ?_, fun f f' r hf => ?_, fun hb => ?_⟩
  · rw [Frames.size_grow]
    rcases List.mem_append.1 hp with hp | hp
    · exact Nat.lt_succ_of_lt (h.range p hp)
    · rw [List.mem_singleton.1 hp]
      exact Nat.lt_succ_self _
  · rw [List.map_append, List.nodup_append]
    refine ⟨h.nodup, by simp, fun a ha b hb => ?_⟩
    obtain ⟨p, hp, rfl⟩ := List.mem_map.1 ha
    obtain rfl : b = frames'.size := by simpa [Frames.next] using hb
    exact Nat.ne_of_lt (h.range p hp)
  · rw [Frames.bindings_grow, Frames.bindings_grow]
    rcases cases_ hf with hf | ⟨rfl, rfl⟩
    · exact (h.bindings f f' r hf).mono later
    · rw [bindings_next, bindings_next]
      exact .nil
  · obtain ⟨size, same⟩ := h.aligned hb
    refine ⟨by simp [size], fun f f' r hf => ?_⟩
    rcases cases_ hf with hf | ⟨rfl, rfl⟩
    · exact same f f' r hf
    · exact size

theorem growExtra (h : Frames.Like L w frames frames') (allowed : L.braces = true) :
    Frames.Like L w frames frames'.grow := by
  refine ⟨h.size, fun p hp => ?_, h.nodup, fun f f' r hf => ?_, fun hb => ?_⟩
  · rw [Frames.size_grow]
    exact Nat.lt_succ_of_lt (h.range p hp)
  · rw [Frames.bindings_grow]
    exact h.bindings f f' r hf
  · rw [hb] at allowed
    cases allowed

end Frames.Like

/-! ## The operations

One lemma for each operation on the machine.  What each needs of the operands is what the comparison
of trees says about them. -/

section
variable {L : Likeness} {levels : List Lox.Level} {w : World} {m m' : Machine}

/-- A name is bound in a frame and in its partner. -/
theorem Machine.Like.bind (h : m.Like L w m') {f f' : FrameId} {renamed : Bool}
    (hf : w[f]? = some (f', renamed)) (x : String) {v v' : Value} (hv : v.Like L w v') :
    (m.bind f x v).Like L w (m'.bind f' (L.name renamed x) v') :=
  ⟨h.left, h.right, h.globals, h.frames.write hf x hv, h.objects, h.fields, h.callables, h.depth,
    h.sink, h.clock, h.readings⟩

/-- An access finds corresponding values, or none in both runs. -/
theorem Machine.Alike.find? (h : Machine.Alike L w levels m m') {id id' : NodeId}
    {name name' : Token} (ha : Access.Like L levels id id' name name') :
    (m.find? id name.lexeme = none ∧ m'.find? id' name'.lexeme = none) ∨
      ∃ v v', m.find? id name.lexeme = some v ∧ m'.find? id' name'.lexeme = some v' ∧
        v.Like L w v' := by
  cases ha with
  | toGlobal left right like _ =>
      have hb := h.machine.frames.bindings 0 0 false h.machine.globals
      simp only [Machine.find?, h.machine.left, h.machine.right, left, right, Frames.find?,
        Machine.globals, Env.frames, List.findSome?_cons, List.findSome?_nil, like.lexeme_eq]
      rcases hb.lookup name.lexeme with ⟨hn, hn'⟩ | ⟨v, v', hv, hv', hlike⟩
      · rw [Likeness.name_false] at hn'
        exact .inl ⟨by rw [hn], by rw [hn']⟩
      · rw [Likeness.name_false] at hv'
        exact .inr ⟨v, v', by rw [hv], by rw [hv'], hlike⟩
  | toLocal left right located like _ =>
      obtain ⟨f, f', hf, hf', hw⟩ := h.chain.locate located
      have hb := h.machine.frames.bindings f f' _ hw
      simp only [Machine.find?, h.machine.left, h.machine.right, left, right, Frames.findAt?, hf,
        hf', Option.bind_some, like.lexeme]
      exact hb.lookup name.lexeme

/-- An assignment writes in corresponding frames, or in none in both runs. -/
theorem Machine.Alike.binder? (h : Machine.Alike L w levels m m') {id id' : NodeId}
    {name name' : Token} (ha : Access.Like L levels id id' name name') :
    (m.binder? id name.lexeme = none ∧ m'.binder? id' name'.lexeme = none) ∨
      ∃ f f' renamed, m.binder? id name.lexeme = some f ∧ m'.binder? id' name'.lexeme = some f' ∧
        w[f]? = some (f', renamed) ∧ name'.lexeme = L.name renamed name.lexeme := by
  cases ha with
  | toGlobal left right like _ =>
      have hb := (h.machine.frames.bindings 0 0 false h.machine.globals).binds name.lexeme
      rw [Likeness.name_false] at hb
      simp only [Machine.binder?, h.machine.left, h.machine.right, left, right, Frames.binder?,
        Machine.globals, Env.frames, List.find?_cons, List.find?_nil, like.lexeme_eq, hb]
      cases (m.frames.bindings 0).binds name.lexeme with
      | false => exact .inl ⟨rfl, rfl⟩
      | true => exact .inr ⟨0, 0, false, rfl, rfl, h.machine.globals, rfl⟩
  | toLocal left right located like _ =>
      obtain ⟨f, f', hf, hf', hw⟩ := h.chain.locate located
      have hb := (h.machine.frames.bindings f f' _ hw).binds name.lexeme
      simp only [Machine.binder?, h.machine.left, h.machine.right, left, right, Frames.binderAt?,
        hf, hf', Option.filter_some, like.lexeme, hb]
      cases (m.frames.bindings f).binds name.lexeme with
      | false => exact .inl ⟨rfl, rfl⟩
      | true => exact .inr ⟨f, f', _, rfl, rfl, hw, rfl⟩

namespace Eval.Like

variable {α α' : Type} (h : Machine.Alike L w levels m m')
include h

/-- An access finds values that mean the same, or fails on both machines. -/
theorem readVariable {id id' : NodeId} {name name' : Token}
    (ha : Access.Like L levels id id' name name') :
    Like L levels w (readVariable id name) (readVariable id' name') m m'
      fun w' v v' => v.Like L w' v' := by
  rcases h.find? ha with ⟨hn, hn'⟩ | ⟨v, v', hv, hv', hlike⟩
  · exact of_error (readVariable_none hn) (readVariable_none hn') h (.undefined ha)
  · exact of_ok (readVariable_some hv) (readVariable_some hv') (.of_alike h rfl rfl) hlike

theorem writeVariable {id id' : NodeId} {name name' : Token}
    (ha : Access.Like L levels id id' name name') {v v' : Value} (hv : v.Like L w v') :
    Like L levels w (writeVariable id name v) (writeVariable id' name' v') m m'
      fun _ _ _ => True := by
  rcases h.binder? ha with ⟨hn, hn'⟩ | ⟨f, f', renamed, hf, hf', hw, hname⟩
  · exact of_error (writeVariable_none hn) (writeVariable_none hn') h (.undefined ha)
  · refine of_ok (writeVariable_some hf) (writeVariable_some hf')
      (.of_alike ⟨?_, h.chain⟩ rfl rfl) trivial
    rw [hname]
    exact h.machine.bind hw name.lexeme hv

/-- A name is defined in the innermost frames, under the name it has there. -/
theorem define {renamed : Bool} (shared : Level.innermost? levels = some renamed) {x x' : String}
    (hx : x' = L.name renamed x) {v v' : Value} (hv : v.Like L w v') :
    Like L levels w (define x v) (define x' v') m m' fun _ _ _ => True := by
  rw [hx]
  exact of_ok (define_eq x v) (define_eq _ v')
    (.of_alike ⟨h.machine.bind (h.chain.innermost shared) x hv, h.chain⟩ rfl rfl) trivial

theorem defineCallable {name name' : Token} (hname : name.LikeName L levels name')
    {c c' : Callable} (hc : c.Like L w c') :
    Like L levels w (defineCallable name.lexeme c) (defineCallable name'.lexeme c') m m'
      fun _ _ _ => True := by
  obtain ⟨renamed, shared, fixed⟩ := hname.shared
  have hm := h.machine
  have hk : Machine.Like L w { m with callables := m.callables + 1 }
      { m' with callables := m'.callables + 1 } :=
    ⟨hm.left, hm.right, hm.globals, hm.frames, hm.objects, hm.fields,
      congrArg (· + 1) hm.callables, hm.depth, hm.sink, hm.clock, hm.readings⟩
  have hv : (Value.callable m.callables c).Like L w (.callable m'.callables c') := by
    rw [hm.callables]
    exact .callable _ hc
  refine of_ok (defineCallable_eq name.lexeme c) (defineCallable_eq name'.lexeme c')
    (.of_alike ⟨?_, h.chain⟩ rfl rfl) trivial
  rw [hname.like.lexeme_eq]
  have bound := hk.bind (h.chain.innermost shared) name.lexeme hv
  rwa [fixed] at bound

/-- Both make an object, of the same number. -/
theorem newObject (className : String) :
    Like L levels w (newObject className) (newObject className) m m'
      fun w' v v' => v.Like L w' v' := by
  have hm := h.machine
  refine of_ok rfl rfl (.of_alike ⟨⟨hm.left, hm.right, hm.globals, hm.frames, ?_, fun i => ?_,
    hm.callables, hm.depth, hm.sink, hm.clock, hm.readings⟩, h.chain⟩ rfl rfl) ?_
  · simp [hm.objects]
  · simp only [Array.getElem?_push, hm.objects]
    split
    next => exact .nil
    next => exact hm.fields i
  · rw [hm.objects]
    exact .object _ _

/-- Both read a field, or both have none of the name. -/
theorem readField (i : Nat) {name name' : Token} (hname : name.Like L false name') :
    Like L levels w (readField i name) (readField i name') m m'
      fun w' v v' => v.Like L w' v' := by
  rcases (h.machine.fields i).lookup name.lexeme with ⟨hn, hn'⟩ | ⟨v, v', hv, hv', hlike⟩
  · rw [← hname.lexeme] at hn'
    refine of_error (readField_none hn) (readField_none hn') h ?_
    rw [hname.lexeme_eq]
    exact .runtime hname.lines nofun
  · rw [← hname.lexeme] at hv'
    exact of_ok (readField_some hv) (readField_some hv') (.of_alike h rfl rfl) hlike

theorem writeField (i : Nat) {name name' : Token} (hname : name.Like L false name') {v v' : Value}
    (hv : v.Like L w v') :
    Like L levels w (writeField i name v) (writeField i name' v') m m' fun _ _ _ => True := by
  have hm := h.machine
  refine of_ok rfl rfl (.of_alike ⟨⟨hm.left, hm.right, hm.globals, hm.frames, ?_, fun j => ?_,
    hm.callables, hm.depth, hm.sink, hm.clock, hm.readings⟩, h.chain⟩ rfl rfl) trivial
  · simpa using hm.objects
  · have hj := hm.fields j
    simp only [Array.getElem?_modify]
    split
    next =>
      rw [hname.lexeme]
      rcases Nat.lt_or_ge j m.objects.size with hlt | hge
      · have hlt' : j < m'.objects.size := hm.objects ▸ hlt
        simp only [Array.getElem?_eq_getElem hlt, Array.getElem?_eq_getElem hlt',
          Option.getD_some, Option.map_some] at hj ⊢
        exact hj.insert name.lexeme hv
      · have hge' : m'.objects.size ≤ j := hm.objects ▸ hge
        simp only [Array.getElem?_eq_none hge, Array.getElem?_eq_none hge', Option.map_none]
        exact .nil
    next => exact hj

theorem readClock :
    Like L levels w readClock readClock m m' fun w' v v' => v.Like L w' v' := by
  have hm := h.machine
  refine of_ok rfl rfl (.of_alike ⟨⟨hm.left, hm.right, hm.globals, hm.frames, hm.objects,
    hm.fields, hm.callables, hm.depth, hm.sink, hm.clock, congrArg (· + 1) hm.readings⟩,
    h.chain⟩ rfl rfl) ?_
  rw [hm.clock, hm.readings]
  exact .number _

/-- Both sinks accept the text, or neither does. -/
theorem write (text : String) :
    Like L levels w (write text) (write text) m m' fun _ _ _ => True := by
  have hm := h.machine
  cases ha : m.sink.accepts text with
  | true =>
      exact of_ok (write_accepted ha) (write_accepted (hm.sink ▸ ha))
        (.of_alike ⟨⟨hm.left, hm.right, hm.globals, hm.frames, hm.objects, hm.fields,
          hm.callables, hm.depth, congrArg (Sink.append · text) hm.sink, hm.clock, hm.readings⟩,
          h.chain⟩ rfl rfl) trivial
  | false => exact of_error (write_refused ha) (write_refused (hm.sink ▸ ha)) h (.output _)

/-- Both print a line, or neither does. -/
theorem printLine (text : String) :
    Like L levels w (printLine text) (printLine text) m m' fun _ _ _ => True :=
  (write h text).bind fun _ _ _ _ _ _ h _ => write h "\n"

/-- Both can flush, or neither can. -/
theorem flush : Like L levels w flush flush m m' fun _ _ _ => True := by
  cases hf : m.sink.flushFails with
  | false => exact of_ok (flush_done hf) (flush_done (h.machine.sink ▸ hf)) (.of_alike h rfl rfl) trivial
  | true => exact of_error (flush_failed hf) (flush_failed (h.machine.sink ▸ hf)) h (.output _)

/-- There is room for another call on both machines, or on neither. -/
theorem entering {line line' : Nat} (lines : L.lines line line') {step : Eval α} {step' : Eval α'}
    {Q : World → α → α' → Prop}
    (hstep : Like L levels w step step' (m.withDepth (m.depth + 1)) (m'.withDepth (m'.depth + 1))
      Q) : Like L levels w (entering line step) (entering line' step') m m' Q := by
  have left {w' : World} {n n' : Machine}
      (hn : Machine.Leads L levels w w' (m.withDepth (m.depth + 1)) (m'.withDepth (m'.depth + 1))
        n n') : Machine.Leads L levels w w' m m' (n.withDepth (n.depth - 1))
          (n'.withDepth (n'.depth - 1)) := by
    have hm := hn.alike.machine
    exact ⟨hn.later, ⟨⟨hm.left, hm.right, hm.globals, hm.frames, hm.objects, hm.fields,
      hm.callables, congrArg (· - 1) hm.depth, hm.sink, hm.clock, hm.readings⟩, hn.alike.chain⟩,
      hn.env, hn.env'⟩
  rcases Nat.lt_or_ge m.depth maxDepth with room | full
  · unfold Like at hstep ⊢
    rw [entering_eq room, entering_eq (h.machine.depth ▸ room)]
    split at hstep
    next hs hs' =>
      obtain ⟨w', leads, hq⟩ := hstep
      rw [hs, hs']
      exact ⟨w', left leads, hq⟩
    next hs hs' =>
      obtain ⟨w', leads, hstop⟩ := hstep
      rw [hs, hs']
      exact ⟨w', left leads, hstop⟩
    next => exact hstep.elim
  · exact of_error (entering_full full) (entering_full (h.machine.depth ▸ full)) h
      (.runtime lines nofun)

/-- Steps in new scopes that both programs have. -/
theorem inScope {env env' : Env} {inner : List Lox.Level} {renamed : Bool}
    (hc : Chain L w inner env.frames env'.frames) {step : Eval α} {step' : Eval α'}
    {Q : World → α → α' → Prop}
    (hstep : ∀ w', w <+: w' →
      Machine.Alike L w' (.shared renamed :: inner) (m.opened env) (m'.opened env') →
        Like L (.shared renamed :: inner) w' step step' (m.opened env) (m'.opened env') Q) :
    Like L levels w (inScope env step) (inScope env' step') m m' Q := by
  have hm := h.machine
  have later : w <+: w ++ [(m'.frames.next, renamed)] := List.prefix_append _ _
  have hnext : (w ++ [(m'.frames.next, renamed)])[m.frames.next]? =
      some (m'.frames.next, renamed) := by
    have next : m.frames.next = w.length := hm.frames.size.symm
    rw [next]
    simp
  have opened : Machine.Alike L (w ++ [(m'.frames.next, renamed)]) (.shared renamed :: inner)
      (m.opened env) (m'.opened env') :=
    ⟨⟨hm.left, hm.right, World.getElem?_mono later hm.globals, hm.frames.grow renamed,
      hm.objects, fun i => (hm.fields i).mono later, hm.callables, hm.depth, hm.sink, hm.clock,
      hm.readings⟩, .shared hnext (hc.mono later)⟩
  replace hstep := hstep _ later opened
  have closed {w' : World} {n n' : Machine} (leads : Machine.Leads L (.shared renamed :: inner)
      (w ++ [(m'.frames.next, renamed)]) w' (m.opened env) (m'.opened env') n n') :
      Machine.Leads L levels w w' m m' (n.within m.env) (n'.within m'.env) := by
    have hn := leads.alike.machine
    have later' := later.trans leads.later
    exact ⟨later', ⟨⟨hn.left, hn.right, hn.globals, hn.frames, hn.objects, hn.fields,
      hn.callables, hn.depth, hn.sink, hn.clock, hn.readings⟩, h.chain.mono later'⟩, rfl, rfl⟩
  unfold Like at hstep ⊢
  rw [inScope_eq, inScope_eq]
  split at hstep
  next hs hs' =>
    obtain ⟨w', leads, hq⟩ := hstep
    rw [hs, hs']
    exact ⟨w', closed leads, hq⟩
  next hs hs' =>
    obtain ⟨w', leads, hstop⟩ := hstep
    rw [hs, hs']
    exact ⟨w', closed leads, hstop⟩
  next => exact hstep.elim

/-- A step, and one in the scope of braces. -/
theorem inBraces (allowed : L.braces = true) {step : Eval α} {step' : Eval α'}
    {Q : World → α → α' → Prop}
    (hstep : Machine.Alike L w (.extra :: levels) m (m'.opened m'.env) →
      Like L (.extra :: levels) w step step' m (m'.opened m'.env) Q) :
    Like L levels w step (Eval.inScope m'.env step') m m' Q := by
  have hm := h.machine
  have opened : Machine.Alike L w (.extra :: levels) m (m'.opened m'.env) :=
    ⟨⟨hm.left, hm.right, hm.globals, hm.frames.growExtra allowed, hm.objects, hm.fields,
      hm.callables, hm.depth, hm.sink, hm.clock, hm.readings⟩, .extra allowed h.chain⟩
  replace hstep := hstep opened
  have closed {w' : World} {n n' : Machine}
      (leads : Machine.Leads L (.extra :: levels) w w' m (m'.opened m'.env) n n') :
      Machine.Leads L levels w w' m m' n (n'.within m'.env) := by
    have hn := leads.alike.machine
    refine ⟨leads.later, ⟨⟨hn.left, hn.right, hn.globals, hn.frames, hn.objects, hn.fields,
      hn.callables, hn.depth, hn.sink, hn.clock, hn.readings⟩, ?_⟩, leads.env, rfl⟩
    rw [leads.env]
    exact h.chain.mono leads.later
  unfold Like at hstep ⊢
  rw [inScope_eq]
  split at hstep
  next hs hs' =>
    obtain ⟨w', leads, hq⟩ := hstep
    rw [hs, hs']
    exact ⟨w', closed leads, hq⟩
  next hs hs' =>
    obtain ⟨w', leads, hstop⟩ := hstep
    rw [hs, hs']
    exact ⟨w', closed leads, hstop⟩
  next => exact hstep.elim

end Eval.Like

end

end Lox
