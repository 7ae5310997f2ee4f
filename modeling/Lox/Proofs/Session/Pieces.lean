import Lox.Proofs.Evaluation.Bound
import Lox.Proofs.Likeness.Lines
import Lox.Proofs.Likeness.Sessions
import Lox.Proofs.Likeness.Weaken
import Lox.Proofs.Session.Sources

/-!
# Running in pieces

Two sources, the first of which is run without an error, are run one after the other or joined by a
line feed and run at once.  The machines are alike at the end of the first source, as it does not
know the distances of the second; and they stay alike in the second one, up to the lines of its
tokens.

The lines are what takes work.  A failure in the second source is blamed on a line that comes later
in the joined source, one in a function of an older source on the line it had; and from a line alone
it cannot be told which of the two it is.  So the second program is also run with tagged lines:
those of older tokens doubled, its own doubled and one more.  Runs do not depend on lines, so this
one ends like all others, and its line tells where the token is from.

Bounds need care too, as the first source has to end within the one that both are run with.  A
larger bound changes nothing for a run that ends, so one can be taken that is enough for both.

* `Likeness.upToLines` — the programs differ in identities and lines only.
* `Turns.first_alike`, `Turns.second_alike` — two programs in turn, on machines that differ in
  lines.
* `Outcome.Joined` — how the second source ends, alone and joined.
* `Session.Reached.run_joined` — **running in pieces is running at once**.
-/

namespace Lox

open Resolution

/-! ## Likeness up to lines

Two runs of the same program, or of the same one on other lines, with tables that agree on it.  What
a failure may differ in is the line, and `lines` says how. -/

/-- Programs that differ in identities and lines only. -/
def Likeness.upToLines (lines : Nat → Nat → Prop) (left right : Distances) : Likeness where
  lines := lines
  rename := id
  injective _ _ h := h
  left := left
  right := right
  braces := false
  accesses _ _ _ _ := True

/-- The same before the second of two programs: the accesses are those known by then. -/
def Likeness.before (lines : Nat → Nat → Prop) (l l' : Ledger) : Likeness :=
  { upToLines lines l.distances l'.distances with
    accesses := fun id _ id' _ => id < l.next ∧ id' < l'.next }

section
variable {lines : Nat → Nat → Prop} {l l' k k' : Ledger} {f g : Nat → Nat}

/-- The first source is the same on both sides, and neither table knows the second one yet. -/
theorem Likeness.plain_before (h : ∀ line, lines (f line) (g line)) :
    (before lines l l').Plain l l' f g :=
  ⟨rfl, rfl, h, fun _ hid _ hid' _ => ⟨hid, hid'⟩⟩

/-- The second source is on other lines. -/
theorem Likeness.plain_upToLines (h : ∀ line, lines (f line) (g line)) :
    (upToLines lines l.distances l'.distances).Plain l l' f g :=
  ⟨rfl, rfl, h, fun _ _ _ _ _ => trivial⟩

/-- What was alike with the smaller tables is alike with the larger ones. -/
theorem Likeness.within_upToLines (left : l.Extends k) (right : l'.Extends k') :
    (before lines l l').Within (upToLines lines k.distances k'.distances) where
  lines h := h
  rename := rfl
  braces := rfl
  left h := left.distances _ h.1
  right h := right.distances _ h.2
  accesses _ := trivial

end

/-! ## Programs in turn

Two programs, the second of which was resolved after the first. -/

/-- Two programs that are resolved one after the other, in ledgers that grow. -/
structure Turns (l₀ l k : Ledger) (a b : List Stmt) : Prop where
  first : l₀.Extends l
  second : l.Extends k
  resolved : Stmt.ResolvedAll l [] a []
  resolved' : Stmt.ResolvedAll k [] b []

/-- Lines do not matter to how programs are resolved. -/
theorem Turns.mapLines {l₀ l k : Ledger} {a b : List Stmt} (h : Turns l₀ l k a b)
    (lines : Nat → Nat) : Turns l₀ l k a (Stmt.relabelAll id lines b) :=
  ⟨h.first, h.second, h.resolved, Stmt.Resolved.relabelAll lines b h.resolved'⟩

/-- Of two steps that end alike both succeed, or neither does. -/
theorem Eval.Like.ok_iff {α α' : Type} {L : Likeness} {levels : List Level} {w : World}
    {step : Eval α} {step' : Eval α'} {m m' : Machine} {Q : World → α → α' → Prop}
    (h : Eval.Like L levels w step step' m m' Q) :
    (∃ a n, step m = .ok a n) ↔ ∃ a n, step' m' = .ok a n := by
  unfold Eval.Like at h
  split at h
  next hs hs' => simp [hs, hs']
  next hs hs' => simp [hs, hs']
  next => exact h.elim

section
variable {l₀ l l' k k' : Ledger} {a b b' : List Stmt} {m : Machine} {lines : Nat → Nat → Prop}
  {p q f g : Nat → Nat}

/-- The first program, on machines that differ in lines. -/
theorem Turns.first_alike (h : Turns l₀ l k a b) (h' : Turns l₀ l' k' a b') (ok : m.Ok l₀)
    (globals : m.Owns []) (older : ∀ line, lines (p line) (q line)) (bound : Nat) :
    Eval.Like (.before lines l l') [] (World.same m.frames.size)
      (executeProgram bound (Stmt.relabelAll id p a))
      (executeProgram bound (Stmt.relabelAll id q a))
      { m.mapLines p with distances := l.distances }
      { m.mapLines q with distances := l'.distances } fun _ _ _ => True := by
  have plain : (Likeness.before lines l l').Plain l l' p q := Likeness.plain_before older
  have same : Stmt.relabelAll (fun _ => 0) id (Stmt.relabelAll id q a) =
      Stmt.relabelAll (fun _ => 0) q a :=
    Stmt.relabelAll_relabelAll id _ q id a
  exact executeProgram_like bound (Stmt.likeAll_of_same plain a same h.resolved
    (Stmt.Resolved.relabelAll q a h'.resolved)).1 (ok.alike plain h.first h'.first globals)

/-- **The second program, on machines that the first one left.** -/
theorem Turns.second_alike (h : Turns l₀ l k a b) (h' : Turns l₀ l' k' a b') (ok : m.Ok l₀)
    (globals : m.Owns []) (older : ∀ line, lines (p line) (q line))
    (own : ∀ line, lines (f line) (g line))
    (same : Stmt.relabelAll (fun _ => 0) id b' = Stmt.relabelAll (fun _ => 0) g b)
    {bound : Nat} {n n' : Machine}
    (hn : executeProgram bound (Stmt.relabelAll id p a)
      { m.mapLines p with distances := l.distances } = .ok () n)
    (hn' : executeProgram bound (Stmt.relabelAll id q a)
      { m.mapLines q with distances := l'.distances } = .ok () n') (bound' : Nat) :
    ∃ w, Eval.Like (.upToLines lines k.distances k'.distances) [] w
      (interpret bound' (Stmt.relabelAll id f b)) (interpret bound' b')
      { n with distances := k.distances } { n' with distances := k'.distances }
      fun _ _ _ => True := by
  have first : Eval.Like (.before lines l l') _ _ _ _ _ _ _ :=
    h.first_alike h' ok globals older bound
  simp only [Eval.Like, hn, hn'] at first
  obtain ⟨w, leads, -⟩ := first
  have within : (Likeness.before lines l l').Within (.upToLines lines k.distances k'.distances) :=
    Likeness.within_upToLines h.second h'.second
  have alike : Machine.Alike (.upToLines lines k.distances k'.distances) w []
      { n with distances := k.distances } { n' with distances := k'.distances } :=
    ⟨within.machine leads.alike.machine, within.chain leads.alike.chain⟩
  exact ⟨w, interpret_like bound' (Stmt.likeAll_of_same
    (Likeness.plain_upToLines own) b same h.resolved' h'.resolved').1 alike⟩

end

/-! ## Outcomes

Which line a failure of the second source is blamed on.  A fault in a function of an older source
has the line it had; a fault of the source itself is as much further down as the first source is
long.  To tell which it is, the second source is run on lines that are tagged. -/

/-- Two outcomes that differ in the line that a failure is blamed on. -/
inductive Outcome.UpToLines (lines : Nat → Nat → Prop) : Outcome Unit → Outcome Unit → Prop
  | done : UpToLines lines (.done ()) (.done ())
  | exhausted : UpToLines lines .exhausted .exhausted
  | runtime {line line' fault} (h : lines line line') :
      UpToLines lines (.failed [.runtime line fault]) (.failed [.runtime line' fault])
  | output (fault : OutputFault) :
      UpToLines lines (.failed [.output fault]) (.failed [.output fault])

theorem Outcome.Like.upToLines {lines : Nat → Nat → Prop} {left right : Distances}
    {o o' : Outcome Unit} (h : Outcome.Like (.upToLines lines left right) o o') :
    Outcome.UpToLines lines o o' := by
  cases h with
  | done => exact .done
  | exhausted => exact .exhausted
  | failed h =>
      cases h with
      | runtime h _ => exact .runtime h
      | output fault => exact .output fault
      | undefined access =>
          obtain ⟨line, lexeme⟩ := access.lexeme_eq fun _ => rfl
          rw [lexeme]
          exact .runtime line

/-- Steps that end alike, each taken in its session. -/
theorem Session.perform_upToLines {lines : Nat → Nat → Prop} {left right : Distances}
    {levels : List Level} {w : World} {step step' : Eval Unit} {m m' : Machine}
    {Q : World → Unit → Unit → Prop} (next next' : NodeId)
    (h : Eval.Like (.upToLines lines left right) levels w step step' m m' Q) :
    Outcome.UpToLines lines (perform step ⟨m, next⟩).1 (perform step' ⟨m', next'⟩).1 ∧
      ∃ w', Machine.Like (.upToLines lines left right) w' (perform step ⟨m, next⟩).2.machine
        (perform step' ⟨m', next'⟩).2.machine :=
  (Session.perform_like next next' h).imp_left Outcome.Like.upToLines

/-- How a source ends, run after another one and joined to it; its own lines come `later` then.
`onLines` says how it ends, run after the other one, if its lines are changed.  A failure is blamed
on a token of the source if the line that it is blamed on changes with them. -/
inductive Outcome.Joined (later : Nat) (onLines : (Nat → Nat) → Outcome Unit) :
    Outcome Unit → Outcome Unit → Prop
  | done : Joined later onLines (.done ()) (.done ())
  | exhausted : Joined later onLines .exhausted .exhausted
  | output (fault : OutputFault) :
      Joined later onLines (.failed [.output fault]) (.failed [.output fault])
  /-- The token that is blamed is older. -/
  | older {line fault} (h : ∀ lines, onLines lines = .failed [.runtime line fault]) :
      Joined later onLines (.failed [.runtime line fault]) (.failed [.runtime line fault])
  /-- The token that is blamed is one of the source. -/
  | own {line fault} (h : ∀ lines, onLines lines = .failed [.runtime (lines line) fault]) :
      Joined later onLines (.failed [.runtime line fault])
        (.failed [.runtime (line + later) fault])

/-- Both give up, or neither does. -/
theorem Outcome.Joined.exhausted_iff {later : Nat} {onLines : (Nat → Nat) → Outcome Unit}
    {alone joined : Outcome Unit} (h : Outcome.Joined later onLines alone joined) :
    alone = .exhausted ↔ joined = .exhausted := by
  cases h <;> simp

/-- Lines of older tokens, and lines of a source that come later. -/
def Later (later : Nat) (line line' : Nat) : Prop :=
  line' = line ∨ line' = line + later

/-- A line of an older source stays. -/
theorem lines_older (later line : Nat) : Later later (id line) (id line) :=
  .inl rfl

/-- A line of the source itself is later. -/
theorem lines_own (later line : Nat) : Later later (id line) (line + later) :=
  .inr rfl

/-- What became of a line that was doubled or, in the second source, doubled and one more: it tells
where the token is from. -/
def Untagged (lines : Nat → Nat) (tagged line : Nat) : Prop :=
  line = if tagged % 2 = 0 then tagged / 2 else lines (tagged / 2)

theorem untagged_older (lines : Nat → Nat) (line : Nat) : Untagged lines (2 * line) line := by
  simp [Untagged]

theorem untagged_own (lines : Nat → Nat) (line : Nat) :
    Untagged lines (2 * line + 1) (lines line) := by
  have half : (2 * line + 1) / 2 = line := by omega
  simp [Untagged, half]

/-- One run on tagged lines tells the lines of all others. -/
theorem Outcome.joined_of_tagged {tagged joined : Outcome Unit} {later : Nat}
    {onLines : (Nat → Nat) → Outcome Unit}
    (h : Outcome.UpToLines (Untagged (· + later)) tagged joined)
    (others : ∀ lines, Outcome.UpToLines (Untagged lines) tagged (onLines lines)) :
    Outcome.Joined later onLines (onLines id) joined := by
  have alone := others id
  cases h with
  | done =>
      generalize onLines id = o at alone
      cases alone
      exact .done
  | exhausted =>
      generalize onLines id = o at alone
      cases alone
      exact .exhausted
  | output fault =>
      generalize onLines id = o at alone
      cases alone
      exact .output fault
  | @runtime line line' fault h =>
      have blamed (lines : Nat → Nat) : onLines lines =
          .failed [.runtime (if line % 2 = 0 then line / 2 else lines (line / 2)) fault] := by
        have other := others lines
        generalize onLines lines = o at other
        cases other with
        | runtime h => rw [h]
      rw [blamed id, h]
      by_cases older : line % 2 = 0
      · simp only [older, if_true] at blamed ⊢
        exact .older blamed
      · simp only [older, if_false] at blamed ⊢
        exact .own blamed

section
variable {l₀ l l' k k' : Ledger} {a b b' : List Stmt} {m m₁ m₂ : Machine} {later bound : Nat}
  (turns : Turns l₀ l k a b) (turns' : Turns l₀ l' k' a b') (ok : m.Ok l₀) (globals : m.Owns [])
  (first : executeProgram bound a { m with distances := l.distances } = .ok () m₁)
include turns turns' ok globals first

/-- The first program ends with the other table too. -/
theorem Turns.first_ends :
    ∃ m₂, executeProgram bound a { m with distances := l'.distances } = .ok () m₂ ∧
      m₁.distances = l.distances ∧ m₂.distances = l'.distances := by
  have alike : Eval.Like (.before Eq l l') _ _ _ _ _ _ _ :=
    turns.first_alike turns' ok globals (fun line => (rfl : id line = id line)) bound
  rw [Stmt.relabelAll_id, Machine.mapLines_id] at alike
  obtain ⟨_, m₂, hm₂⟩ := alike.ok_iff.1 ⟨(), m₁, first⟩
  simp only [Eval.Like, first, hm₂] at alike
  obtain ⟨w, leads, -⟩ := alike
  exact ⟨m₂, hm₂, leads.alike.machine.left, leads.alike.machine.right⟩

variable (first' : executeProgram bound a { m with distances := l'.distances } = .ok () m₂)
  (same : Stmt.relabelAll (fun _ => 0) id b' = Stmt.relabelAll (fun _ => 0) (· + later) b)
  (bound' : Nat) (next next' : NodeId)
include first' same

/-- The machines after the second program are alike. -/
theorem Turns.machines_alike :
    ∃ w, Machine.Like (.upToLines (Later later) k.distances k'.distances) w
      (Session.perform (interpret bound' b) ⟨{ m₁ with distances := k.distances }, next⟩).2.machine
      (Session.perform (interpret bound' b')
        ⟨{ m₂ with distances := k'.distances }, next'⟩).2.machine := by
  rw [← Stmt.relabelAll_id a, ← Machine.mapLines_id m] at first first'
  obtain ⟨w, like⟩ := turns.second_alike turns' ok globals (lines_older later)
    (lines_own later) same first first' bound'
  rw [Stmt.relabelAll_id] at like
  exact (Session.perform_upToLines next next' like).2

/-- The second program ends in the same way.  A run on tagged lines, which ends like both, tells
which line is blamed. -/
theorem Turns.outcomes_joined :
    Outcome.Joined later
      (fun lines => (Session.perform (interpret bound' (Stmt.relabelAll id lines b))
        ⟨{ m₁ with distances := k.distances }, next⟩).1)
      (Session.perform (interpret bound' b) ⟨{ m₁ with distances := k.distances }, next⟩).1
      (Session.perform (interpret bound' b')
        ⟨{ m₂ with distances := k'.distances }, next'⟩).1 := by
  rw [← Stmt.relabelAll_id a, ← Machine.mapLines_id m] at first first'
  obtain ⟨_, tagged, taggedFirst⟩ := (turns.first_alike turns ok globals (untagged_older id)
    bound).ok_iff.2 ⟨(), m₁, first⟩
  obtain ⟨_, joined⟩ := turns.second_alike turns' ok globals (untagged_older (· + later))
    (untagged_own (· + later)) same taggedFirst first' bound'
  have onLines (lines : Nat → Nat) : Outcome.UpToLines (Untagged lines)
      (Session.perform (interpret bound' (Stmt.relabelAll id (fun line => 2 * line + 1) b))
        ⟨{ tagged with distances := k.distances }, next⟩).1
      (Session.perform (interpret bound' (Stmt.relabelAll id lines b))
        ⟨{ m₁ with distances := k.distances }, next⟩).1 := by
    obtain ⟨_, alone⟩ := turns.second_alike (turns.mapLines lines) ok globals
      (untagged_older lines) (untagged_own lines)
      (Stmt.relabelAll_relabelAll id (fun _ => 0) lines id b) taggedFirst first bound'
    exact (Session.perform_upToLines next next alone).1
  have ends := Outcome.joined_of_tagged (Session.perform_upToLines next next' joined).1 onLines
  rwa [Stmt.relabelAll_id] at ends

end

/-! ## Bounds

One bound serves both ways of running. -/

/-- Two programs one after the other are one. -/
theorem executeProgram_append (bound : Nat) {a b : List Stmt} {m n : Machine}
    (h : executeProgram bound a m = .ok () n) :
    executeProgram bound (a ++ b) m = executeProgram bound b n := by
  induction a generalizing m with
  | nil =>
      cases h
      rfl
  | cons s ss ih =>
      cases hs : execute bound s m with
      | error stop k => cases (bind_error hs).symm.trans h
      | ok flow k =>
          replace h := (bind_ok hs).symm.trans h
          refine (bind_ok hs).trans ?_
          cases flow with
          | normal => exact ih h
          | returned => cases h

/-- A program that ends its first part goes on with its second. -/
theorem interpret_append (bound : Nat) {a b : List Stmt} {m n : Machine}
    (h : executeProgram bound a m = .ok () n) :
    interpret bound (a ++ b) m = interpret bound b n := by
  have same := executeProgram_append bound (b := b) h
  show (executeProgram bound (a ++ b) >>= fun _ => Eval.flush) m =
    (executeProgram bound b >>= fun _ => Eval.flush) n
  cases hb : executeProgram bound b n with
  | ok _ k => rw [bind_ok hb, bind_ok (same.trans hb)]
  | error stop k => rw [bind_error hb, bind_error (same.trans hb)]

/-- A flush leaves the machine as it is. -/
theorem executeProgram_of_interpret {bound : Nat} {program : List Stmt} {m n : Machine}
    (h : interpret bound program m = .ok () n) : executeProgram bound program m = .ok () n := by
  cases hp : executeProgram bound program m with
  | error stop k => cases (bind_error hp).symm.trans h
  | ok _ k =>
      replace h : Eval.flush k = .ok () n := (bind_ok hp).symm.trans h
      cases hf : k.sink.flushFails with
      | true => cases (Eval.flush_failed hf).symm.trans h
      | false =>
          cases (Eval.flush_done hf).symm.trans h
          rfl

/-- A larger bound does no harm to a program that ends. -/
theorem executeProgram_of_le {bound bound' : Nat} (le : bound ≤ bound') {program : List Stmt}
    {m n : Machine} (h : executeProgram bound program m = .ok () n) :
    executeProgram bound' program m = .ok () n := by
  rcases executeProgram_extends le program m with ⟨k, exhausted⟩ | same
  · cases h.symm.trans exhausted
  · exact same.trans h

namespace Session

variable {s s' s'' : Session} {source : String} {program : List Stmt}

theorem perform_congr {step step' : Eval Unit} {m m' : Machine} (next : NodeId)
    (h : step m = step' m') : perform step ⟨m, next⟩ = perform step' ⟨m', next⟩ := by
  simp only [perform, h]

/-- A step that has come to an end does the same if there is more room for it. -/
theorem perform_of_extends {step step' : Eval Unit} (h : Eval.Extends step step')
    (ends : (perform step s).1 ≠ .exhausted) : perform step' s = perform step s := by
  obtain ⟨m, next⟩ := s
  refine perform_congr next ?_
  rcases h m with ⟨n, exhausted⟩ | same
  · exact absurd (by simp only [perform, exhausted]) ends
  · exact same

/-- A source that ends without an error, within every larger bound. -/
theorem run_first {a : String} (ha : Accepted a) {entries : List Entry}
    (hentries : Lox.resolve (s.parsed a).statements = .ok entries) {bound : Nat}
    (ends : (s.run bound a).1 = .done ()) :
    ∃ m, (s.run bound a).2 = ⟨m, (s.parsed a).nextNode⟩ ∧ ∀ n ≥ bound,
      executeProgram n (s.parsed a).statements
        { s.machine with distances := s.machine.distances.add entries } = .ok () m := by
  obtain ⟨scanned, faultless, -⟩ := ha.read s
  have hread := read_of_faultless a scanned faultless
  rw [run_eq_interpret hread (resolve_of_ok hentries)] at ends ⊢
  obtain ⟨m, hm, same⟩ := perform_eq_done ends
  exact ⟨m, same, fun n le => executeProgram_of_le le (executeProgram_of_interpret hm)⟩

/-- A source that is run on its own. -/
theorem run_accepted {b : String} (hb : Accepted b) {entries : List Entry}
    (hentries : Lox.resolve (s.parsed b).statements = .ok entries) (n : Nat) :
    s.run n b = perform (Lox.interpret n (s.parsed b).statements)
      ⟨{ s.machine with distances := s.machine.distances.add entries }, (s.parsed b).nextNode⟩ := by
  obtain ⟨scanned, faultless, -⟩ := hb.read s
  exact run_eq_interpret (read_of_faultless b scanned faultless) (resolve_of_ok hentries) n

/-- A source that ends within a bound ends in the same way within a larger one. -/
theorem run_of_le {b : String} (hb : Accepted b) (s : Session) {bound bound' : Nat}
    (le : bound ≤ bound') (ends : (s.run bound b).1 ≠ .exhausted) :
    s.run bound' b = s.run bound b := by
  obtain ⟨-, -, entries, hentries⟩ := hb.read s
  rw [run_accepted hb hentries] at ends ⊢
  rw [run_accepted hb hentries]
  exact perform_of_extends (interpret_extends le _) ends

/-- A source that is run on other lines. -/
theorem runProgram_accepted {b : String} (hb : Accepted b) {entries : List Entry}
    (hentries : Lox.resolve (s.parsed b).statements = .ok entries) (lines : Nat → Nat) (n : Nat) :
    (s.read b).2.runProgram n ((s.read b).1.program.map (Stmt.relabel id lines)) =
      perform (Lox.interpret n (Stmt.relabelAll id lines (s.parsed b).statements))
        ⟨{ s.machine with distances := s.machine.distances.add entries },
          (s.parsed b).nextNode⟩ := by
  obtain ⟨scanned, faultless, -⟩ := hb.read s
  rw [read_of_faultless b scanned faultless, Stmt.relabelAll_eq_map]
  simp only [Outcome.program, runProgram, resolve_of_ok (resolve_mapLine hentries)]
  rfl

/-- Joined sources, once the first one has ended. -/
theorem run_joined_accepted {a b : String} (ha : Accepted a) (hb : Accepted b)
    {es es' : List Entry} (h : Lox.resolve ((s.parsed a).statements ++
      (s.parsedAfter a b).statements) = .ok (es ++ es')) {n : Nat} {m : Machine}
    (first : executeProgram n (s.parsed a).statements { s.machine with
      distances := s.machine.distances.add (es ++ es') } = .ok () m) :
    s.run n (a ++ "\n" ++ b) = perform (Lox.interpret n (s.parsedAfter a b).statements)
      ⟨m, (s.parsedAfter a b).nextNode⟩ := by
  have parsed := parsed_joined ha hb s
  have hentries : Lox.resolve (s.parsed (a ++ "\n" ++ b)).statements = .ok (es ++ es') := by
    rw [parsed]
    exact h
  rw [run_accepted (ha.append hb) hentries, parsed]
  exact perform_congr _ (interpret_append n first)

/-- The second program is resolved in the ledger of the first one, alone or joined to it.  The
first one knows the same accesses in both cases. -/
theorem turns_of_accepts {l₀ : Ledger} {a b b' : List Stmt} {es es' es'' : List Entry}
    {next next' next'' : NodeId} (first : l₀.Accepts a es next)
    (alone : (l₀.add a es next).Accepts b es' next')
    (joined : (l₀.add a es next).Accepts b' es'' next'') :
    ∃ l k l' k', Turns l₀ l k a b ∧ Turns l₀ l' k' a b' ∧
      l.distances = l₀.distances.add es ∧ k.distances = l.distances.add es' ∧
      l'.distances = l₀.distances.add (es ++ es'') ∧ k'.distances = l'.distances := by
  have cut : (l₀.add a es next).Extends
      { (l₀.add a es next).add b' es'' next'' with next := next } :=
    ⟨Nat.le_refl next, joined.extended.distances, joined.extended.selfWrites⟩
  refine ⟨_, _, _, _, ⟨first.extended, alone.extended, first.resolved, alone.resolved⟩,
    ⟨first.extended.trans cut, ⟨joined.extended.next, fun _ _ => rfl, fun _ _ => Iff.rfl⟩,
      Stmt.ResolvedAll.mono cut first.resolved, joined.resolved⟩, rfl, rfl, ?_, rfl⟩
  exact (Distances.add_append l₀.distances es es'').symm

/-- The second source after the first one has ended. -/
theorem Ready.joined_after {programs : List Stmt} {a b : String} (ready : s.Ready programs)
    (ha : Accepted a) (hb : Accepted b) {es : List Entry}
    (hes : Lox.resolve (s.parsed a).statements = .ok es) {n : Nat} {m : Machine}
    (first : executeProgram n (s.parsed a).statements
      { s.machine with distances := s.machine.distances.add es } = .ok () m)
    (hs' : s' = ⟨m, (s.parsed a).nextNode⟩) :
    (∃ w, Machine.Like (.upToLines (Later (1 + a.toList.count '\n'))
        (s'.run n b).2.machine.distances (s.run n (a ++ "\n" ++ b)).2.machine.distances) w
        (s'.run n b).2.machine (s.run n (a ++ "\n" ++ b)).2.machine) ∧
    Outcome.Joined (1 + a.toList.count '\n') (fun lines =>
        ((s'.read b).2.runProgram n ((s'.read b).1.program.map (Stmt.relabel id lines))).1)
      (s'.run n b).1 (s.run n (a ++ "\n" ++ b)).1 := by
  obtain ⟨-, -, es', hes'⟩ := hb.read s'
  obtain ⟨es'', hes''⟩ := resolve_parsedAfter (a := a) hb s
  have next : (s.parsed a).nextNode = s'.nextNode := by rw [hs']
  have acceptsA := ha.accepts ready.tidy rfl hes
  have acceptsB := hb.accepts acceptsA.tidy next hes'
  have acceptsB' := hb.accepts_after acceptsA.tidy rfl hes''
  obtain ⟨l, k, l', k', turns, turns', hl, hk, hl', hk'⟩ :=
    turns_of_accepts acceptsA acceptsB acceptsB'
  have anonymous := (parsedAfter_anonymous (a := a) hb s s').2
  replace hl : l.distances = s.machine.distances.add es := hl
  replace hl' : l'.distances = s.machine.distances.add (es ++ es'') := hl'
  rw [← hl] at first
  obtain ⟨m', first', known, known'⟩ := turns.first_ends turns' ready.machine ready.globals first
  have machines := turns.machines_alike turns' ready.machine ready.globals first first' anonymous n
    (s'.parsed b).nextNode (s.parsedAfter a b).nextNode
  have outcomes := turns.outcomes_joined turns' ready.machine ready.globals first first' anonymous n
    (s'.parsed b).nextNode (s.parsedAfter a b).nextNode
  -- What the two sessions run.
  have machine' : s'.machine = m := by rw [hs']
  have table : m.distances.add es' = k.distances := by rw [hk, known]
  have table' : ({ m' with distances := k'.distances } : Machine) = m' := by rw [hk', ← known']
  rw [hl'] at first'
  have halone := run_accepted hb hes' n
  have hlines (lines : Nat → Nat) := runProgram_accepted hb hes' lines n
  have hjoined := run_joined_accepted ha hb (acceptsA.append acceptsB') first'
  rw [machine', table] at halone
  simp only [machine', table] at hlines
  rw [table', ← hjoined, ← halone] at machines outcomes
  simp only [hlines]
  obtain ⟨w, machines⟩ := machines
  refine ⟨⟨w, ?_⟩, outcomes⟩
  rw [machines.left, machines.right]
  exact machines

/-- Whether a source ends without an error is found out by running it. -/
instance (o : Outcome Unit) : Decidable (o = .done ()) :=
  match o with
  | .done () => .isTrue rfl
  | .failed _ => .isFalse nofun
  | .exhausted => .isFalse nofun

/-- **Running in pieces is running at once.**  Let two sources be read and resolved each on its own,
and let the first one be run in a session without an error.  The second one then ends if and only
if the two, joined by a line feed, end.  Within every bound in which the first one ends, what was
printed is the same; the machines are alike, with all globals and all that is reached from them, up
to the identities of accesses and the lines of the second source; and both end without an error or
with the same one, blamed on the same line if its token is older than the second source and on one
as many lines later as come before that source if it is from there. -/
theorem Reached.run_joined {clock : Nat → Float} {sink : Sink} {programs : List Stmt} {a b : String}
    (reached : Reached clock sink s programs) (ha : Accepted a) (hb : Accepted b) {bound : Nat}
    (ends : (s.run bound a).1 = .done ()) :
    let s₁ := (s.run bound a).2
    ((∃ n, (s₁.run n b).1 ≠ .exhausted) ↔ ∃ n, (s.run n (a ++ "\n" ++ b)).1 ≠ .exhausted) ∧
    ∀ n ≥ bound,
      let alone := s₁.run n b
      let joined := s.run n (a ++ "\n" ++ b)
      joined.2.machine.sink = alone.2.machine.sink ∧
      (∃ w, Machine.Like (.upToLines (Later (1 + a.toList.count '\n'))
          alone.2.machine.distances joined.2.machine.distances) w alone.2.machine
          joined.2.machine) ∧
      Outcome.Joined (1 + a.toList.count '\n') (fun lines =>
          ((s₁.read b).2.runProgram n ((s₁.read b).1.program.map (Stmt.relabel id lines))).1)
        alone.1 joined.1 := by
  intro s₁
  obtain ⟨-, -, es, hes⟩ := ha.read s
  obtain ⟨m, hs₁, first⟩ := run_first ha hes ends
  have after (n : Nat) (le : n ≥ bound) := reached.ready.joined_after ha hb hes (first n le) hs₁
  refine ⟨⟨?_, ?_⟩, fun n le => ?_⟩
  · rintro ⟨n, alone⟩
    refine ⟨max n bound, fun exhausted => alone ?_⟩
    rw [← run_of_le hb s₁ (Nat.le_max_left n bound) alone]
    exact (after _ (Nat.le_max_right n bound)).2.exhausted_iff.2 exhausted
  · rintro ⟨n, joined⟩
    refine ⟨max n bound, fun exhausted => joined ?_⟩
    rw [← run_of_le (ha.append hb) s (Nat.le_max_left n bound) joined]
    exact (after _ (Nat.le_max_right n bound)).2.exhausted_iff.1 exhausted
  · obtain ⟨⟨w, machines⟩, outcomes⟩ := after n le
    exact ⟨machines.sink, ⟨w, machines⟩, outcomes⟩

/-- A function that fails when a later source calls it, on the line where it was declared. -/
theorem Reached.run_joined_older_failure :
    let s : Session := .initial (fun _ => 0) {}
    let s₁ := (s.run 9 "fun f() \x7b\n return y; \x7d").2
    Reached (fun _ => 0) {} s [] ∧
      Accepted "fun f() \x7b\n return y; \x7d" ∧ Accepted "f();" ∧
      (s.run 9 "fun f() \x7b\n return y; \x7d").1 = .done () ∧
      Outcome.Joined 2 (fun lines =>
          ((s₁.read "f();").2.runProgram 9
            ((s₁.read "f();").1.program.map (Stmt.relabel id lines))).1)
        (s₁.run 9 "f();").1 (s.run 9 "fun f() \x7b\n return y; \x7d\nf();").1 := by
  intro s s₁
  have hes : Lox.resolve (s.parsed "fun f() \x7b\n return y; \x7d").statements = .ok [] := by
    decide +kernel
  have hes' : Lox.resolve (s.parsed "f();").statements = .ok [] := by decide +kernel
  have ha : Accepted "fun f() \x7b\n return y; \x7d" :=
    ⟨_, _, _, read_of_faultless _ (by decide +kernel) (by decide +kernel), resolve_of_ok hes⟩
  have hb : Accepted "f();" :=
    ⟨_, _, _, read_of_faultless _ (by decide +kernel) (by decide +kernel), resolve_of_ok hes'⟩
  have ends : (s.run 9 "fun f() \x7b\n return y; \x7d").1 = .done () := by decide +kernel
  have joined := run_joined .initial ha hb ends
  exact ⟨.initial, ha, hb, ends, (joined.2 9 (Nat.le_refl 9)).2.2⟩

end Session

end Lox
