import Lox.Proofs.Evaluation.Closures

/-!
# Single steps keep environments and scopes in step

The invariant between evaluator and resolver is that the current chain covers the open scopes.  Only
two kinds of operations touch it: definitions, which the scopes have accepted before, and scopes,
which are left as they were entered.  For these two the lemmas say how chain and scopes change
together; for all others they say that nothing about them changes.

* `Machine.Owns` — the current environment is that of the given open scopes.
* `Machine.Owns.define` — it still is after a declaration that the scopes accepted.
* `Eval.Keeps.define`, `Eval.Keeps.inScope`, … — one lemma for each operation on the machine.
-/

namespace Lox

open Resolution

/-! ## The current environment

While no initializer is being evaluated the current frame binds exactly what its scope has. -/

/-- The current environment is that of the open scopes, and its innermost frame binds nothing that
the innermost scope does not declare. -/
structure Machine.Owns (m : Machine) (scopes : Scopes) : Prop where
  covers : m.frames.Covers m.env.frames scopes
  settled : scopes.Settled
  own : ∀ s ∈ scopes.head?, ∀ name,
    (m.frames.bindings m.env.innermost).binds name = true → s.names.lookup name = some true

theorem Frames.Covers.innermost_lt {frames : Frames Value} {env : Env} {scopes : Scopes}
    (h : frames.Covers env.frames scopes) : env.innermost < frames.size := by
  obtain ⟨innermost, enclosing⟩ := env
  cases scopes with
  | nil =>
      cases enclosing with
      | nil => exact h.1 ▸ h.2
      | cons => exact h.elim
  | cons s scopes => exact (covers_cons.1 h).1.exists_frame

/-- A step that defines nothing leaves the current environment what it was. -/
theorem Machine.Owns.evolve {m n : Machine} {scopes : Scopes} (h : m.Owns scopes)
    (evolves : m.Evolves false n) : n.Owns scopes := by
  refine ⟨evolves.env ▸ h.covers.mono evolves.grows, h.settled, fun s hs name hx => ?_⟩
  rw [evolves.env] at hx
  exact h.own s hs name (evolves.kept _ h.covers.innermost_lt nofun name hx)

namespace Frames

/-- A write binds at least what was bound. -/
theorem grows_write {frames : Frames Value} (frame : FrameId) (name : String) (v : Value) :
    frames.Grows (frames.write frame name v) := by
  refine ⟨by simp, fun f x hx => ?_⟩
  rw [bindings_write]
  split
  next hf => rw [Bindings.binds_insert, ← hf.1, hx, Bool.or_true]
  next => exact hx

theorem grows_grow {frames : Frames Value} : frames.Grows frames.grow :=
  ⟨by simp, fun f x hx => by rwa [bindings_grow]⟩

end Frames

/-- A declaration that the scopes accepted, carried out. -/
theorem Machine.Owns.define {m : Machine} {scopes after : Scopes} (h : m.Owns scopes) {name : Token}
    (hn : scopes.introduce name = .ok after) (v : Value) :
    (m.bind m.env.innermost name.lexeme v).Owns after := by
  have grows : m.frames.Grows (m.bind m.env.innermost name.lexeme v).frames :=
    Frames.grows_write _ _ _
  rcases Scopes.introduce_eq_ok hn with ⟨rfl, rfl⟩ | ⟨s, outer, rfl, -, rfl⟩
  · exact ⟨h.covers.mono grows, h.settled, by simp⟩
  · obtain ⟨holds, covers⟩ := Frames.covers_cons.1 h.covers
    have bound (x : String) :
        ((m.bind m.env.innermost name.lexeme v).frames.bindings m.env.innermost).binds x =
          (decide (x = name.lexeme) || (m.frames.bindings m.env.innermost).binds x) := by
      rw [Machine.bind, Frames.bindings_write, if_pos ⟨rfl, holds.exists_frame⟩,
        Bindings.binds_insert]
    refine ⟨Frames.covers_cons.2 ⟨⟨?_, fun x hx => ?_⟩, covers.mono grows⟩,
      h.settled.introduce hn, fun t ht x hx => ?_⟩
    · exact Nat.lt_of_lt_of_le holds.exists_frame grows.size
    · refine (bound x).trans ?_
      rw [Scope.lookup_add_add, Scope.lookup_add] at hx
      by_cases hname : x = name.lexeme
      · simp [hname]
      · rw [if_neg hname] at hx
        rw [holds.binds x hx, Bool.or_true]
    · obtain rfl : (s.add name.lexeme false).add name.lexeme true = t := by simpa using ht
      replace hx := (bound x).symm.trans hx
      rw [Scope.lookup_add_add, Scope.lookup_add]
      by_cases hname : x = name.lexeme
      · rw [if_pos hname]
      · rw [if_neg hname]
        exact h.own s rfl x (by simpa [hname] using hx)

/-! ## Single steps

One lemma for each operation.  It asks for a machine whose functions are well and says that they are
afterwards. -/

/-- A name is bound in the innermost frame. -/
theorem Machine.Evolves.bind_innermost {m : Machine} (name : String) (v : Value) :
    m.Evolves true (m.bind m.env.innermost name v) := by
  refine ⟨rfl, rfl, rfl, Frames.grows_write _ _ _, fun f _ hf x hx => ?_⟩
  simpa only [Machine.bind, Frames.bindings_write, hf rfl, false_and, if_false] using hx

namespace Machine.Evolves

variable {defines : Bool} {m n : Machine}

/-- A name that a frame binds is bound anew. -/
theorem bind_bound {f : FrameId} {name : String} (bound : (m.frames.bindings f).binds name = true)
    (v : Value) : m.Evolves defines (m.bind f name v) := by
  refine ⟨rfl, rfl, rfl, Frames.grows_write _ _ _, fun g _ _ x hx => ?_⟩
  rwa [Machine.bind, Frames.binds_write _ _ _ _ _ bound] at hx

/-- What a new scope binds is bound in its own frame, so nothing is defined outside. -/
theorem closed {env : Env} (h : (m.opened env).Evolves true n) :
    m.Evolves false (n.within m.env) := by
  refine ⟨rfl, h.depth, h.distances, Frames.grows_grow.trans h.grows, fun f hf _ x hx => ?_⟩
  have old : f ≠ m.frames.next := Nat.ne_of_lt hf
  have opened := h.kept f (by simp [Machine.opened, Nat.lt_succ_of_lt hf]) (fun _ => old) x hx
  rwa [Machine.opened, Frames.bindings_grow] at opened

/-- One call less is in progress again. -/
theorem finished (h : (m.withDepth (m.depth + 1)).Evolves defines n) :
    m.Evolves defines (n.withDepth (n.depth - 1)) := by
  refine ⟨h.env, ?_, h.distances, h.grows, h.kept⟩
  show n.depth - 1 = m.depth
  rw [h.depth]
  rfl

end Machine.Evolves

namespace Machine.Ok

variable {l : Ledger} {m : Machine}

/-- The new value is fit to be used once it is bound: a function can be in its own environment. -/
theorem bind (h : m.Ok l) {f : FrameId} {name : String} {v : Value}
    (hv : v.Ok l (m.bind f name v).frames) : (m.bind f name v).Ok l := by
  have grows : m.frames.Grows (m.bind f name v).frames := Frames.grows_write f name v
  refine ⟨h.distances, fun g x w hw => ?_, fun i x w hw => (h.objects i x w hw).grow grows⟩
  simp only [Machine.bind, Frames.bindings_write] at hw
  split at hw
  next =>
    rw [Bindings.lookup_insert] at hw
    split at hw
    next => exact Option.some.inj hw ▸ hv
    next => exact (h.frames _ x w hw).grow grows
  next => exact (h.frames g x w hw).grow grows

/-- What is found under a name is fit to be used. -/
theorem find? (h : m.Ok l) {id : NodeId} {name : String} {v : Value}
    (hv : m.find? id name = some v) : v.Ok l m.frames := by
  unfold Machine.find? at hv
  split at hv
  next =>
    obtain ⟨f, -, hf⟩ := Option.bind_eq_some_iff.1 hv
    exact h.frames f name v hf
  next =>
    obtain ⟨f, -, hf⟩ := List.exists_of_findSome?_eq_some hv
    exact h.frames f name v hf

end Machine.Ok

namespace Eval.Keeps

variable {α : Type} {defines : Bool} {l : Ledger} {m : Machine}

/-- What is read is a value of the machine. -/
theorem readVariable (hm : m.Ok l) (id : NodeId) (name : Token) :
    Keeps defines l (readVariable id name) m fun v n => v.Ok l n.frames := by
  cases hf : m.find? id name.lexeme with
  | none => exact of_eq_error (readVariable_none hf) hm
  | some v => exact of_eq_ok (readVariable_some hf) hm .refl (hm.find? hf)

/-- A value is written where its name is bound. -/
theorem writeVariable (hm : m.Ok l) (id : NodeId) (name : Token) {v : Value}
    (hv : v.Ok l m.frames) : Keeps defines l (writeVariable id name v) m fun _ _ => True := by
  cases hf : m.binder? id name.lexeme with
  | none => exact of_eq_error (writeVariable_none hf) hm
  | some f =>
      exact of_eq_ok (writeVariable_some hf) (hm.bind (hv.grow (Frames.grows_write _ _ _)))
        (.bind_bound (Machine.binds_of_binder? hf) v) trivial

/-- A definition, in step with the scope it was accepted in. -/
theorem define (hm : m.Ok l) {scopes after : Scopes} (ho : m.Owns scopes) {name : Token}
    (hn : scopes.introduce name = .ok after) {v : Value} (hv : v.Ok l m.frames) :
    Keeps true l (define name.lexeme v) m fun _ n => n.Owns after :=
  of_eq_ok (define_eq name.lexeme v) (hm.bind (hv.grow (Frames.grows_write _ _ _)))
    (.bind_innermost _ _) (ho.define hn v)

/-- A function is kept with the chain that it is defined in. -/
theorem defineCallable (hm : m.Ok l) {scopes after : Scopes} (ho : m.Owns scopes) {name : Token}
    (hn : scopes.introduce name = .ok after) {c : Callable}
    (hc : ∀ {n : Machine}, n.env = m.env → n.Owns after → c.Ok l n.frames) :
    Keeps true l (defineCallable name.lexeme c) m fun _ n => n.Owns after := by
  let k : Machine := { m with callables := m.callables + 1 }
  have hk : k.Ok l := ⟨hm.distances, hm.frames, hm.objects⟩
  have hko : k.Owns scopes := ⟨ho.covers, ho.settled, ho.own⟩
  have evolves : m.Evolves true k := .of_frames rfl rfl rfl rfl
  have howns := hko.define hn (.callable m.callables c)
  exact of_eq_ok (defineCallable_eq name.lexeme c) (hk.bind (hc rfl howns))
    (evolves.trans (.bind_innermost _ _)) howns

/-- What is read from a field is a value of the machine. -/
theorem readField (hm : m.Ok l) (i : Nat) (name : Token) :
    Keeps defines l (readField i name) m fun v n => v.Ok l n.frames := by
  cases hf : (m.objects[i]?.getD []).lookup name.lexeme with
  | none => exact of_eq_error (readField_none hf) hm
  | some v => exact of_eq_ok (readField_some hf) hm .refl (hm.objects i _ v hf)

/-- A value is written into a field. -/
theorem writeField (hm : m.Ok l) (i : Nat) (name : Token) {v : Value} (hv : v.Ok l m.frames) :
    Keeps defines l (writeField i name v) m fun _ _ => True := by
  refine of_eq_ok rfl ⟨hm.distances, hm.frames, fun j x w hw => ?_⟩ (.of_frames rfl rfl rfl rfl)
    trivial
  simp only [Array.getElem?_modify] at hw
  split at hw
  next h =>
    cases ho : m.objects[j]? with
    | none => simp [ho] at hw
    | some fields =>
        simp only [ho, Option.map_some, Option.getD_some, Bindings.lookup_insert] at hw
        split at hw
        next => exact Option.some.inj hw ▸ hv
        next => exact hm.objects j x w (by simpa [ho] using hw)
  next => exact hm.objects j x w hw

theorem newObject (hm : m.Ok l) (className : String) :
    Keeps defines l (newObject className) m fun v n => v.Ok l n.frames := by
  refine of_eq_ok rfl ⟨hm.distances, hm.frames, fun j x w hw => ?_⟩ (.of_frames rfl rfl rfl rfl)
    trivial
  simp only [Array.getElem?_push] at hw
  split at hw
  next => simp at hw
  next => exact hm.objects j x w hw

theorem readClock (hm : m.Ok l) :
    Keeps defines l readClock m fun v n => v.Ok l n.frames :=
  of_eq_ok rfl ⟨hm.distances, hm.frames, hm.objects⟩ (.of_frames rfl rfl rfl rfl) trivial

theorem write (hm : m.Ok l) (text : String) :
    Keeps defines l (write text) m fun _ _ => True := by
  cases ha : m.sink.accepts text with
  | true =>
      exact of_eq_ok (write_accepted ha) ⟨hm.distances, hm.frames, hm.objects⟩
        (.of_frames rfl rfl rfl rfl) trivial
  | false => exact of_eq_error (write_refused ha) hm

theorem printLine (hm : m.Ok l) (text : String) :
    Keeps defines l (printLine text) m fun _ _ => True :=
  (write hm text).bind fun _ _ hn _ _ => write hn "\n"

theorem flush (hm : m.Ok l) : Keeps defines l flush m fun _ _ => True := by
  cases hf : m.sink.flushFails with
  | false => exact of_eq_ok (flush_done hf) hm .refl trivial
  | true => exact of_eq_error (flush_failed hf) hm

theorem inScope {env : Env} {step : Eval α} {Q : α → Machine → Prop}
    (h : Keeps true l step (m.opened env) fun a n => Q a (n.within m.env)) :
    Keeps false l (inScope env step) m Q := by
  have closed {n : Machine} (hn : n.Ok l) (evolves : (m.opened env).Evolves true n) :
      (n.within m.env).Ok l ∧ m.Evolves false (n.within m.env) :=
    ⟨⟨hn.distances, hn.frames, hn.objects⟩, evolves.closed⟩
  unfold Keeps at *
  rw [inScope_eq]
  cases hs : step (m.opened env) with
  | ok a n =>
      rw [hs] at h
      obtain ⟨hk, evolves⟩ := closed h.1 h.2.1
      exact ⟨hk, evolves, h.2.2⟩
  | error stop n =>
      rw [hs] at h
      exact closed h.1 h.2

/-- A call is one more in progress for as long as it lasts. -/
theorem entering {line : Nat} {step : Eval α} {Q : α → Machine → Prop} (hm : m.Ok l)
    (h : m.depth < maxDepth → Keeps defines l step (m.withDepth (m.depth + 1))
      fun a n => Q a (n.withDepth (n.depth - 1))) :
    Keeps defines l (entering line step) m Q := by
  rcases Nat.lt_or_ge m.depth maxDepth with room | full
  · have left {n : Machine} (hn : n.Ok l)
        (evolves : (m.withDepth (m.depth + 1)).Evolves defines n) :
        (n.withDepth (n.depth - 1)).Ok l ∧ m.Evolves defines (n.withDepth (n.depth - 1)) :=
      ⟨⟨hn.distances, hn.frames, hn.objects⟩, evolves.finished⟩
    replace h := h room
    unfold Keeps at *
    rw [entering_eq room]
    cases hs : step (m.withDepth (m.depth + 1)) with
    | ok a n =>
        rw [hs] at h
        obtain ⟨hk, evolves⟩ := left h.1 h.2.1
        exact ⟨hk, evolves, h.2.2⟩
    | error stop n =>
        rw [hs] at h
        exact left h.1 h.2
  · exact of_eq_error (entering_full full) hm

end Eval.Keeps

end Lox
