import Lox.Proofs.Evaluation.Course
import Lox.Proofs.Evaluation.Preservation

/-!
# The resolver and the evaluator agree

Whatever a run comes to is evaluated in the environment of the scopes around it, so an access finds
its variable in the frame at its distance.  The one name of an open scope that its frame does not
bind is that of a local whose initializer is evaluated.

Every task of a run is a part of a program that was resolved, and it is evaluated in the environment
of the scopes that stand around it in that program.  This is the invariant; it holds of the program
as a whole, and each step from a task to its parts keeps it.  What an access finds is then read off
it.

* `Machine.Hosts` — the environment of scopes in which an initializer may be pending.
* `Moment.Fits` — a task, in the environment of the scopes around it.
* `Moment.Fits.reaches` — a run that begins so comes to such moments only.
* `Moment.Fits.read`, `Moment.Fits.write` — what an access finds at its distance.
-/

namespace Lox

open Resolution

variable {l : Ledger} {m n : Machine} {scopes after : Scopes}

/-! ## Initializers

While the initializer of a local is evaluated, its scope already declares the name, but its frame
does not bind it yet.  In all other scopes what is declared is bound. -/

/-- The current environment is that of the open scopes; a name whose initializer is being evaluated
is not bound in the innermost frame. -/
structure Machine.Hosts (m : Machine) (scopes : Scopes) : Prop where
  covers : m.frames.Covers m.env.frames scopes
  settled : Scopes.Settled scopes.tail
  pending : ∀ x, scopes.isPending x = true →
    (m.frames.bindings m.env.innermost).binds x = false

/-- If nothing is pending, the environment that owns its scopes hosts them. -/
theorem Machine.Owns.hosts (h : m.Owns scopes) : m.Hosts scopes :=
  ⟨h.covers, fun s hs => h.settled s (List.mem_of_mem_tail hs),
    fun x hx => by simp [h.settled.isPending] at hx⟩

/-- While its initializer is evaluated, a local is declared and not bound. -/
theorem Machine.Owns.declare (h : m.Owns scopes) {name : Token} {declared : Scopes}
    (hd : scopes.declare name = .ok declared) : m.Hosts declared := by
  cases scopes with
  | nil =>
      obtain rfl : [] = declared := by simpa using hd
      exact h.hosts
  | cons s outer =>
      obtain ⟨fresh, rfl⟩ := Scopes.declare_cons_eq_ok hd
      obtain ⟨holds, covers⟩ := Frames.covers_cons.1 h.covers
      obtain ⟨settled, houter⟩ := List.forall_mem_cons.1 h.settled
      have undeclared : s.names.lookup name.lexeme = none := by
        simpa [Scope.declares] using fresh
      refine ⟨Frames.covers_cons.2 ⟨⟨holds.exists_frame, fun x hx => ?_⟩, covers⟩, houter,
        fun x hx => ?_⟩
      · rw [Scope.lookup_add] at hx
        split at hx
        next => cases hx
        next => exact holds.binds x hx
      · obtain rfl := (Scopes.isPending_add settled).1 hx
        rw [Bool.eq_false_iff]
        intro bound
        have readable := h.own s rfl name.lexeme bound
        rw [undeclared] at readable
        cases readable

/-- A step that defines nothing leaves a pending name unbound. -/
theorem Machine.Hosts.evolve (h : m.Hosts scopes) (evolves : m.Evolves false n) :
    n.Hosts scopes := by
  refine ⟨evolves.env ▸ h.covers.mono evolves.grows, h.settled, fun x hx => ?_⟩
  rw [evolves.env, Bool.eq_false_iff]
  intro bound
  have := evolves.kept _ h.covers.innermost_lt nofun x bound
  rw [h.pending x hx] at this
  cases this

/-! ## Accesses

A distance counts scopes outward from an access, and frames outward in the environment. -/

section
variable {distance : Nat}

/-- The access of a variable that is declared and not pending. -/
theorem Machine.Hosts.bound (h : m.Hosts scopes) {x : String}
    (hd : scopes.distance? x = some distance) (hp : scopes.isPending x = false) :
    ∃ frame, m.env.frames[distance]? = some frame ∧ frame < m.frames.size ∧
      (m.frames.bindings frame).binds x = true := by
  obtain ⟨s, hs, declared⟩ := Scopes.distance?_eq_some hd
  obtain ⟨readable, hx⟩ := Scope.declares_iff.1 declared
  obtain ⟨frame, hframe, holds⟩ := h.covers.holds hs
  refine ⟨frame, hframe, holds.exists_frame, holds.binds x ?_⟩
  cases readable with
  | true => exact hx
  | false =>
      cases scopes with
      | nil => cases hs
      | cons t outer =>
          cases distance with
          | zero =>
              obtain rfl : t = s := by simpa using hs
              rw [Scopes.isPending_cons.2 hx] at hp
              cases hp
          | succ distance =>
              have hmem : s ∈ outer := List.mem_of_getElem? (by simpa using hs)
              exact absurd hx (h.settled s hmem x)

/-- The access of a pending variable. -/
theorem Machine.Hosts.unbound (h : m.Hosts scopes) {x : String}
    (hd : scopes.distance? x = some distance) (hp : scopes.isPending x = true) :
    ∃ frame, m.env.frames[distance]? = some frame ∧ frame < m.frames.size ∧
      (m.frames.bindings frame).binds x = false := by
  cases scopes with
  | nil => simp [Scopes.isPending_nil] at hp
  | cons s outer =>
      have declared : s.declares x = true :=
        Scope.declares_iff.2 ⟨false, Scopes.isPending_cons.1 hp⟩
      rw [Scopes.distance?_cons, if_pos declared] at hd
      obtain rfl := Option.some.inj hd
      exact ⟨m.env.innermost, rfl, h.covers.innermost_lt, h.pending x hp⟩

end

/-! ## Moments

What fits is a task with the machine on which it is evaluated. -/

/-- A task, in the environment of the scopes around it. -/
def Task.Fits (l : Ledger) (m : Machine) : Task → Prop
  | .expression e => ∃ scopes, m.Hosts scopes ∧ e.Resolved l scopes
  | .expressions es => ∃ scopes, m.Hosts scopes ∧ ∀ e ∈ es, e.Resolved l scopes
  | .write id name v =>
      ∃ scopes, m.Hosts scopes ∧ Access.Resolved l scopes ⟨id, name, true⟩ ∧ v.Ok l m.frames
  | .statement s => ∃ scopes after, m.Owns scopes ∧ s.Resolved l scopes after
  | .statements ss => ∃ scopes after, m.Owns scopes ∧ Stmt.ResolvedAll l scopes ss after
  | .loop condition body _ => ∃ scopes, m.Owns scopes ∧ condition.Resolved l scopes ∧
      body.Resolved l scopes scopes
  | .call callee arguments _ => callee.Ok l m.frames ∧ ∀ v ∈ arguments, v.Ok l m.frames

/-- At a moment, every function has its environment, and so has what is about to be evaluated. -/
structure Moment.Fits (l : Ledger) (p : Moment) : Prop where
  machine : p.machine.Ok l
  task : p.task.Fits l p.machine

/-- The members of a list are resolved if all accesses in the list are. -/
theorem Expr.resolved_all {es : List Expr}
    (h : ∀ a ∈ Expr.accessesAll es, a.Resolved l scopes) : ∀ e ∈ es, e.Resolved l scopes := by
  induction es with
  | nil => simp
  | cons e es ih =>
      simp only [accessesAll, List.forall_mem_append] at h
      exact List.forall_mem_cons.2 ⟨h.1, ih h.2⟩

namespace Moment.Fits

open Eval.Keeps

/-- The evaluation of an expression, which others follow. -/
theorem after_eval {bound : Nat} {e : Expr} {v : Value} (hm : m.Ok l)
    (he : e.eval (Callable.apply bound) m = .ok v n) :
    n.Ok l ∧ m.Evolves false n ∧ v.Ok l n.frames :=
  (Expr.eval_keeps (Callable.apply_keeps bound) e hm).of_ok he

/-- The execution of a statement, which others follow. -/
theorem after_exec {bound : Nat} {s : Stmt} (hs : s.Resolved l scopes after) (hm : m.Ok l)
    (ho : m.Owns scopes) (h : s.exec (Callable.apply bound) bound m = .ok .normal n) :
    n.Ok l ∧ n.Owns after := by
  obtain ⟨hn, -, howns⟩ := (Stmt.exec_keeps (Callable.apply_keeps bound) s hs hm ho).of_ok h
  exact ⟨hn, howns⟩

/-- What an evaluation goes on to is evaluated in the environment of the scopes around it. -/
theorem next {p q : Moment} (h : p.Fits l) (step : p.Next q) : q.Fits l := by
  obtain ⟨hm, ht⟩ := h
  cases step with
  | group | operand | assigned | object =>
      obtain ⟨scopes, hosts, he⟩ := ht
      refine ⟨hm, scopes, hosts, fun a ha => he a ?_⟩
      simp [Expr.accesses, ha]
  | left | logicalLeft | callee | setObject =>
      obtain ⟨scopes, hosts, he⟩ := ht
      exact ⟨hm, scopes, hosts, fun a ha => he a (List.mem_append_left _ ha)⟩
  | right hx | logicalRight hx _ | setValue hx =>
      obtain ⟨scopes, hosts, he⟩ := ht
      obtain ⟨hn, evolves, -⟩ := after_eval hm hx
      exact ⟨hn, scopes, hosts.evolve evolves, fun a ha => he a (List.mem_append_right _ ha)⟩
  | write he =>
      obtain ⟨scopes, hosts, hr⟩ := ht
      obtain ⟨hn, evolves, hv⟩ := after_eval hm he
      exact ⟨hn, scopes, hosts.evolve evolves, hr _ List.mem_cons_self, hv⟩
  | arguments hf =>
      obtain ⟨scopes, hosts, he⟩ := ht
      obtain ⟨hn, evolves, -⟩ := after_eval hm hf
      exact ⟨hn, scopes, hosts.evolve evolves,
        Expr.resolved_all fun a ha => he a (List.mem_append_right _ ha)⟩
  | call hf has =>
      obtain ⟨hn, -, hv⟩ := after_eval hm hf
      obtain ⟨hk, evolves, hvs⟩ :=
        (Expr.evalAll_keeps (Callable.apply_keeps _) _ hn).of_ok has
      exact ⟨hk, hv.grow evolves.grows, hvs⟩
  | firstExpression =>
      obtain ⟨scopes, hosts, hes⟩ := ht
      exact ⟨hm, scopes, hosts, (List.forall_mem_cons.1 hes).1⟩
  | otherExpressions he =>
      obtain ⟨scopes, hosts, hes⟩ := ht
      obtain ⟨hn, evolves, -⟩ := after_eval hm he
      exact ⟨hn, scopes, hosts.evolve evolves, (List.forall_mem_cons.1 hes).2⟩
  | expression | printed =>
      obtain ⟨scopes, after, howns, he, -⟩ := ht
      exact ⟨hm, scopes, howns.hosts, he⟩
  | initializer =>
      obtain ⟨scopes, after, howns, declared, hd, he, -⟩ := ht
      exact ⟨hm, declared, howns.declare hd, he _ rfl⟩
  | block =>
      obtain ⟨scopes, after, howns, ⟨inner, hbody⟩, -⟩ := ht
      exact ⟨hm.opened _, _, inner, howns.covers.opened howns.settled _, hbody⟩
  | @condition _ _ _ no =>
      obtain ⟨scopes, after, howns, hs⟩ := ht
      cases no <;> exact ⟨hm, scopes, howns.hosts, hs.1⟩
  | @yes _ _ _ no _ _ _ he =>
      obtain ⟨scopes, after, howns, hs⟩ := ht
      obtain ⟨hn, evolves, -⟩ := after_eval hm he
      cases no <;> exact ⟨hn, scopes, scopes, howns.evolve evolves, hs.2.1⟩
  | no he =>
      obtain ⟨scopes, after, howns, hs⟩ := ht
      obtain ⟨hn, evolves, -⟩ := after_eval hm he
      exact ⟨hn, scopes, scopes, howns.evolve evolves, hs.2.2.1⟩
  | loop =>
      obtain ⟨scopes, after, howns, he, hbody, -⟩ := ht
      exact ⟨hm, scopes, howns, he, hbody⟩
  | loopCondition =>
      obtain ⟨scopes, howns, he, -⟩ := ht
      exact ⟨hm, scopes, howns.hosts, he⟩
  | loopBody he =>
      obtain ⟨scopes, howns, -, hbody⟩ := ht
      obtain ⟨hn, evolves, -⟩ := after_eval hm he
      exact ⟨hn, scopes, scopes, howns.evolve evolves, hbody⟩
  | loopAgain he _ hs =>
      obtain ⟨scopes, howns, hcondition, hbody⟩ := ht
      obtain ⟨hn, evolves, -⟩ := after_eval hm he
      obtain ⟨hk, hkowns⟩ := after_exec hbody hn (howns.evolve evolves) hs
      exact ⟨hk, scopes, hkowns, hcondition, hbody⟩
  | returned =>
      obtain ⟨scopes, after, howns, -, he, -⟩ := ht
      exact ⟨hm, scopes, howns.hosts, he _ rfl⟩
  | firstStatement =>
      obtain ⟨scopes, after, howns, between, hs, -⟩ := ht
      exact ⟨hm, scopes, between, howns, hs⟩
  | otherStatements hs =>
      obtain ⟨scopes, after, howns, between, hr, hss⟩ := ht
      obtain ⟨hn, hnowns⟩ := after_exec hr hm howns hs
      exact ⟨hn, between, after, hnowns, hss⟩
  | @body _ _ _ _ _ closure _ _ m _ arity room hn =>
      obtain ⟨⟨scopes, opened, inner, covers, settled, hparameters, hbody⟩, hvs⟩ := ht
      have hk : (m.withDepth (m.depth + 1)).Ok l := ⟨hm.distances, hm.frames, hm.objects⟩
      have howns := Frames.Covers.opened (m := m.withDepth (m.depth + 1)) covers settled true
      obtain ⟨hn, -, hnowns⟩ := (bindParameters_keeps arity hparameters (hk.opened closure) howns
        fun v hv => (hvs v hv).grow Frames.grows_grow).of_ok hn
      exact ⟨hn, opened, inner, hnowns, hbody⟩

/-- **A run that begins in the environment of the scopes around it stays so.** -/
theorem reaches {p q : Moment} (h : p.Fits l) (run : p.Reaches q) : q.Fits l := by
  induction run with
  | refl => exact h
  | tail _ step ih => exact ih.next step

section
variable {bound : Nat} {id : NodeId} {name : Token} {distance : Nat}

/-- A local is read in the frame at its distance, which binds it. -/
theorem read (h : Fits l ⟨bound, .expression (.read id name), m⟩)
    (hd : m.distances[id]? = some distance) :
    ∃ frame value, m.env.frames[distance]? = some frame ∧ frame < m.frames.size ∧
      (m.frames.bindings frame).lookup name.lexeme = some value ∧
      Eval.readVariable id name m = .ok value m := by
  obtain ⟨hm, scopes, hosts, he⟩ := h
  have access := he ⟨id, name, false⟩ List.mem_cons_self
  have resolved : scopes.distance? name.lexeme = some distance :=
    access.distance.symm.trans (hm.distances ▸ hd)
  obtain ⟨frame, hframe, exists_frame, binds⟩ := hosts.bound resolved (access.readable rfl)
  obtain ⟨value, hvalue⟩ := Bindings.binds_iff.1 binds
  refine ⟨frame, value, hframe, exists_frame, hvalue, Eval.readVariable_some ?_⟩
  simp only [Machine.find?, hd, Frames.findAt?, hframe, Option.bind_some, hvalue]

/-- A local is written in the frame at its distance, which binds it, unless the assignment stands
in its own initializer. -/
theorem write {value : Value} (h : Fits l ⟨bound, .write id name value, m⟩)
    (hd : m.distances[id]? = some distance) :
    ∃ frame, m.env.frames[distance]? = some frame ∧ frame < m.frames.size ∧
      (id ∉ l.selfWrites → (m.frames.bindings frame).binds name.lexeme = true ∧
        Eval.writeVariable id name value m = .ok () (m.bind frame name.lexeme value)) ∧
      (id ∈ l.selfWrites → (m.frames.bindings frame).binds name.lexeme = false ∧
        Eval.writeVariable id name value m =
          .error (Eval.failure name.line (.undefinedVariable name.lexeme)) m) := by
  obtain ⟨hm, scopes, hosts, access, -⟩ := h
  have resolved : scopes.distance? name.lexeme = some distance :=
    access.distance.symm.trans (hm.distances ▸ hd)
  cases hp : scopes.isPending name.lexeme with
  | false =>
      obtain ⟨frame, hframe, exists_frame, binds⟩ := hosts.bound resolved hp
      have other : id ∉ l.selfWrites := fun hmem => by
        rw [(access.selfWrite rfl).1 hmem] at hp
        cases hp
      refine ⟨frame, hframe, exists_frame, fun _ => ⟨binds, Eval.writeVariable_some ?_⟩,
        fun hmem => absurd hmem other⟩
      simp only [Machine.binder?, hd, Frames.binderAt?, hframe, Option.filter_some, binds, if_true]
  | true =>
      obtain ⟨frame, hframe, exists_frame, unbound⟩ := hosts.unbound resolved hp
      have self : id ∈ l.selfWrites := (access.selfWrite rfl).2 hp
      refine ⟨frame, hframe, exists_frame, fun hmem => absurd self hmem,
        fun _ => ⟨unbound, Eval.writeVariable_none ?_⟩⟩
      simp only [Machine.binder?, hd, Frames.binderAt?, hframe, Option.filter_some, unbound,
        Bool.false_eq_true, if_false]

end

end Moment.Fits

end Lox
