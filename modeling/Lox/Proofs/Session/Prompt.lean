import Lox.Proofs.Scan.Blank
import Lox.Proofs.Session.Input
import Lox.Proofs.Session.Stages

/-!
# The prompt

A dialogue runs line after line in one session, whatever becomes of each; only lines of white space
are passed over.  To run them would leave the session as it is and print nothing, so what is passed
over is what the run would report: the white space that is no blank to the scanner.

Whether a flush fails is fixed when a session is begun, and no step of a run touches it.  So each
line ends with the same flush, and by induction on the lines a dialogue is the list of their runs:
what it prints is the text of each, followed by what the prompt adds, and its errors are those of
the lines that were reported.

* `Eval.keepsFlush` — no step changes whether the printed text can be flushed.
* `Session.Idle` — a session between two lines.
* `Session.run_white` — the run of a line of white space.
* `Session.runEach` — the runs of some sources, one after another.
* `Prompt.dialogue_runs_lines` — **a dialogue is the runs of its lines**.
-/

namespace Lox

/-! ## Flushing

The text of a line is flushed when the line has been run.  That this works, or fails, is a matter of
the sink that the session was begun with, so it is the same for every line.  It is shown of every
step of a run, with the induction over runs that only asks it of the operations on a machine. -/

/-- A step does not change whether the printed text can be flushed. -/
def Eval.KeepsFlush {α : Type} (step : Eval α) : Prop :=
  ∀ m : Machine, (step.left m).sink.flushFails = m.sink.flushFails

namespace Eval.KeepsFlush

variable {α β : Type} {step : Eval α}

/-- A step that comes to a result leaves a sink that can be flushed if the one before could be. -/
theorem of_ok (h : KeepsFlush step) {m n : Machine} {a : α} (hs : step m = .ok a n) :
    n.sink.flushFails = m.sink.flushFails :=
  left_ok hs ▸ h m

/-- So does a step that is given up or fails. -/
theorem of_error (h : KeepsFlush step) {m n : Machine} {stop : Stop}
    (hs : step m = .error stop n) : n.sink.flushFails = m.sink.flushFails :=
  left_error hs ▸ h m

/-- Whether the sink can be flushed is the same after the first of two steps, and so after the
second. -/
theorem bind {f : α → Eval β} (h : KeepsFlush step) (hf : ∀ a, KeepsFlush (f a)) :
    KeepsFlush (step >>= f) := by
  intro m
  cases hs : step m with
  | ok a n => rw [left_bind hs, hf a n, h.of_ok hs]
  | error stop n => rw [left_error (bind_error hs), h.of_error hs]

/-- To open a scope and to leave it again has nothing to do with the sink. -/
theorem inScope (h : KeepsFlush step) (env : Env) : KeepsFlush (inScope env step) := by
  intro m
  rw [left, inScope_eq]
  have inside := h (m.opened env)
  cases hs : step (m.opened env) with
  | ok a n => exact left_ok hs ▸ inside
  | error stop n => exact left_error hs ▸ inside

/-- To enter a call, or to be refused one at the limit, has nothing to do with the sink either. -/
theorem entering (h : KeepsFlush step) (line : Nat) : KeepsFlush (entering line step) := by
  intro m
  rcases Nat.lt_or_ge m.depth maxDepth with room | full
  · rw [left, entering_eq room]
    have inside := h (m.withDepth (m.depth + 1))
    cases hs : step (m.withDepth (m.depth + 1)) with
    | ok a n => exact left_ok hs ▸ inside
    | error stop n => exact left_error hs ▸ inside
  · rw [left, entering_full full]

end Eval.KeepsFlush

/-- **No step changes whether the printed text can be flushed.** -/
theorem Eval.keepsFlush : Closed KeepsFlush where
  pure _ _ := rfl
  get _ := rfl
  fail _ _ _ _ := rfl
  exhausted _ := rfl
  bind h hf := h.bind hf
  readVariable id name m := by
    cases hv : m.find? id name.lexeme with
    | some v => rw [left, readVariable_some hv]
    | none => rw [left, readVariable_none hv]
  writeVariable id name v m := by
    cases hf : m.binder? id name.lexeme with
    | some f => rw [left, writeVariable_some hf]; rfl
    | none => rw [left, writeVariable_none hf]
  newObject _ _ := rfl
  readField i name m := by
    cases hv : (m.objects[i]?.getD []).lookup name.lexeme with
    | some v => rw [left, readField_some hv]
    | none => rw [left, readField_none hv]
  writeField _ _ _ _ := rfl
  readClock _ := rfl
  write text m := by
    cases ha : m.sink.accepts text with
    | true => rw [left, write_accepted ha]; rfl
    | false => rw [left, write_refused ha]
  flush m := by
    cases hf : m.sink.flushFails with
    | false => rw [left, flush_done hf, hf]
    | true => rw [left, flush_failed hf, hf]
  entering h := h.entering
  define _ _ _ := rfl
  defineCallable _ _ _ := rfl
  inScope h := h.inScope

namespace Session

/-- A run of any source, read or refused, leaves a sink that can be flushed if the one before could
be. -/
theorem flushFails_run (bound : Nat) (source : String) (s : Session) :
    (s.run bound source).2.machine.sink.flushFails = s.machine.sink.flushFails := by
  rcases s.accepts_or_refuses source with ⟨program, s', accepts⟩ | ⟨errors, refuses⟩
  · have same : s'.machine.sink = s.machine.sink := by
      obtain ⟨s₁, hread, hresolve⟩ := accepts
      obtain ⟨entries, -, rfl⟩ := resolve_eq_done hresolve
      obtain ⟨-, -, -, rfl⟩ := read_eq_done hread
      rfl
    rw [run_of_accepts accepts, ← same]
    have kept := Eval.keepsFlush.interpret (fun _ _ => rfl) bound program s'.machine
    obtain ⟨machine, next⟩ := s'
    simp only [interpret, perform]
    rw [Eval.left] at kept
    split at kept
    next hi => rw [hi]; exact kept
    next stop n hi => rw [hi]; cases stop <;> exact kept
  · obtain ⟨next, same⟩ := run_of_refuses refuses
    rw [same]

/-! ## White space

A line of white space is passed over without a run.  For the characters that the scanner knows as
blanks a run would do nothing at all; for the others it would report one stray character each, and
that is all that is lost. -/

/-- A session between two lines: what was printed has been taken out, and what will be can be
flushed. -/
structure Idle (s : Session) : Prop where
  text : s.machine.sink.text = ""
  flush : s.machine.sink.flushFails = false

variable {s : Session} {source : String}

/-- A session that nothing has run in is one, with a sink that can be flushed. -/
theorem idle_initial (clock : Nat → Float) {sink : Sink} (text : sink.text = "")
    (flush : sink.flushFails = false) : (initial clock sink).Idle :=
  ⟨text, flush⟩

/-- Between two lines no text waits to be taken. -/
theorem Idle.takeText (h : s.Idle) : s.takeText = ("", s) := by
  obtain ⟨⟨frames, env, objects, callables, depth, distances, ⟨text, _, _, _⟩, clock, readings⟩,
    next⟩ := s
  obtain rfl : text = "" := h.text
  rfl

/-- A session is idle again once what a line printed has been taken out. -/
theorem Idle.run (h : s.Idle) (bound : Nat) (source : String) :
    (s.run bound source).2.takeText.2.Idle :=
  ⟨rfl, (flushFails_run bound source s).trans h.flush⟩

/-- White space that the scanner does not pass over, as reported. -/
def strays (source : String) : List Diagnostic :=
  (source.toList.filter fun c => !Piece.isBlank c).map fun c => .lexical 1 (.strayCharacter c)

/-- A program without statements is run without a trace. -/
theorem Idle.run_empty (h : s.Idle) (accepted : s.read source = (.done [], s)) (bound : Nat) :
    s.run bound source = (.done (), s) := by
  have resolved : s.resolve [] = (.done (), s) := rfl
  have flushed : Lox.interpret bound [] s.machine = .ok () s.machine := Eval.flush_done h.flush
  rw [run_of_accepts ⟨s, accepted, resolved⟩]
  obtain ⟨machine, next⟩ := s
  simp only [interpret, perform, flushed]

/-- **The run of a line of white space** changes nothing and prints nothing, and all it reports are
the characters that are no blanks to the scanner. -/
theorem Idle.run_white (h : s.Idle) (blank : isBlankLine source = true)
    (noFeed : '\n' ∉ source.toList) (bound : Nat) :
    (s.run bound source).1.errors = strays source ∧ (s.run bound source).2 = s := by
  have faults : Scan.faults (scan source) = strays source := Scan.faults_white blank noFeed
  cases hs : strays source with
  | nil =>
      rw [hs] at faults
      have ending : parse [⟨.eof, "", 1, ()⟩] s.nextNode = ⟨[], [], s.nextNode⟩ := rfl
      have accepted : s.read source = (.done [], s) := by
        simp only [read, faults, Scan.tokens_white blank noFeed, ending, Parsed.diagnostics,
          List.map_nil]
      rw [h.run_empty accepted]
      exact ⟨rfl, rfl⟩
  | cons d ds =>
      rw [hs] at faults
      simp only [Session.run, read, faults]
      exact ⟨rfl, trivial⟩

/-! ## Lines

What a dialogue does with its lines is defined on the list of their texts, apart from the loop that
takes one line after another off the bytes of the input. -/

/-- What the runs of some sources print and report, one after another, and the session that they
leave; what a run printed is taken out before the next one. -/
def runEach (s : Session) : List String → List (String × List Diagnostic) × Session
  | [] => ([], s)
  | source :: sources =>
    let (outcome, s) := s.run abundant source
    let (text, s) := s.takeText
    let (answers, s) := runEach s sources
    ((text, outcome.errors) :: answers, s)

end Session

namespace Prompt

open Session

/-- What a dialogue writes for what its lines print. -/
def stdout (answers : List (String × List Diagnostic)) : String :=
  String.join (answers.map (mark ++ ·.1)) ++ (mark ++ "\n")

/-- What a dialogue reports: the errors of the lines that are not passed over. -/
def stderr (texts : List String) (answers : List (String × List Diagnostic)) : String :=
  String.join (List.zipWith
    (fun text answer => if isBlankLine text then "" else errorLines answer.2) texts answers)

variable {s : Session} {text : String}

/-- A line is answered as its run would, but that white space is not reported. -/
theorem respond_eq (h : s.Idle) (noFeed : '\n' ∉ text.toList) :
    let (outcome, s') := s.run abundant text
    respond s text = ⟨s'.takeText.1, if isBlankLine text then "" else errorLines outcome.errors,
      some s'.takeText.2⟩ := by
  dsimp only
  cases blank : isBlankLine text with
  | true =>
      have same := (h.run_white blank noFeed abundant).2
      simp only [respond, blank, if_true, same, h.takeText]
  | false => simp only [respond, blank, Bool.false_eq_true, if_false]

/-- The texts of lines, one by one. -/
theorem mapM_decode_cons {line : List UInt8} {rest : List (List UInt8)} {texts : List String}
    (h : (line :: rest).mapM Utf8.decode = .ok texts) :
    ∃ text others, texts = text :: others ∧ Utf8.decode line = .ok text ∧
      rest.mapM Utf8.decode = .ok others := by
  rw [List.mapM_cons] at h
  cases hline : Utf8.decode line with
  | error => rw [hline] at h; cases h
  | ok text =>
      rw [hline] at h
      cases hrest : rest.mapM Utf8.decode with
      | error => simp only [bind, Except.bind, hrest] at h; cases h
      | ok others =>
          simp only [bind, Except.bind, hrest] at h
          cases h
          exact ⟨text, others, rfl, rfl, rfl⟩

/-- The texts of an input, in the order in which a dialogue takes its lines. -/
inductive Texts : List UInt8 → List String → Prop
  | none {bytes : List UInt8} (h : nextLine? bytes = none) : Texts bytes []
  | some {bytes line rest : List UInt8} {text : String} {texts : List String}
      (h : nextLine? bytes = some (line, rest)) (decoded : Utf8.decode line = .ok text)
      (others : Texts rest texts) : Texts bytes (text :: texts)

/-- If all lines can be decoded, the texts are those of the lines, one by one. -/
theorem texts_of_mapM_decode {bytes : List UInt8} {texts : List String}
    (h : (lines bytes).mapM Utf8.decode = .ok texts) : Texts bytes texts := by
  induction hn : bytes.length using Nat.strong_induction_on generalizing bytes texts with
  | _ n ih =>
      subst hn
      rw [lines_eq] at h
      cases taken : nextLine? bytes with
      | none =>
          rw [taken] at h
          cases h
          exact .none taken
      | some found =>
          obtain ⟨line, rest⟩ := found
          rw [taken] at h
          obtain ⟨text, others, rfl, decoded, h⟩ := mapM_decode_cons h
          exact .some taken decoded (ih _ (length_of_nextLine? taken) h rfl)

/-- No text has a line feed in it: no line has one, and decoding makes none. -/
theorem Texts.noFeed {bytes : List UInt8} {texts : List String} (h : Texts bytes texts) :
    ∀ text ∈ texts, '\n' ∉ text.toList := by
  induction h with
  | none => exact List.forall_mem_nil _
  | some taken decoded _ ih =>
      exact List.forall_mem_cons.2 ⟨Utf8.decode_noFeed (noFeed_of_nextLine? taken) decoded, ih⟩

/-- A dialogue is the runs of its lines, in any session between two lines and with any bound that is
large enough. -/
theorem dialogue_eq {s : Session} (idle : s.Idle) {bytes : List UInt8} {texts : List String}
    (h : Texts bytes texts) {bound : Nat} (enough : bytes.length ≤ bound) :
    dialogue bound s bytes =
      (⟨stdout (s.runEach texts).1, stderr texts (s.runEach texts).1, 0⟩, (s.runEach texts).2) := by
  induction h generalizing s bound with
  | none taken =>
      cases bound with
      | zero => rfl
      | succ bound =>
          simp only [dialogue, round, taken]
          rfl
  | @some bytes line rest text texts taken decoded others ih =>
      have shorter := length_of_nextLine? taken
      cases bound with
      | zero => exact absurd (Nat.lt_of_lt_of_le shorter enough) (Nat.not_lt_zero _)
      | succ bound =>
          have answered := respond_eq idle (Utf8.decode_noFeed (noFeed_of_nextLine? taken) decoded)
          have after := ih (idle.run abundant text)
            (Nat.le_of_lt_succ (Nat.lt_of_lt_of_le shorter enough))
          simp only [dialogue, round, taken, respondTo, decoded, answered, after, runEach, stdout, stderr,
            List.map_cons, List.zipWith_cons_cons, String.join_cons, String.append_assoc]

/-- **A dialogue is the runs of its lines.**  If the lines of an input are texts, what is printed
and the session that is left are those of running every line in order, whatever becomes of each: the
mark, then what the line prints, and at the end the mark once more; the status is 0.  What is
reported are the errors of the runs, but for lines of white space, which are passed over: to run one
prints nothing and changes nothing, and it reports the characters that are no blanks to the scanner,
so nothing if all of them are. -/
theorem dialogue_runs_lines {s : Session} (idle : s.Idle) {bytes : List UInt8}
    {texts : List String} (readable : (lines bytes).mapM Utf8.decode = .ok texts) :
    onInput s bytes =
        ⟨stdout (s.runEach texts).1, stderr texts (s.runEach texts).1, 0⟩ ∧
      (dialogue bytes.length s bytes).2 = (s.runEach texts).2 ∧
      ∀ text ∈ texts, isBlankLine text = true → ∀ s' : Session, s'.Idle →
        (s'.run abundant text).1.errors = strays text ∧ (s'.run abundant text).2 = s' ∧
          s'.takeText = ("", s') := by
  have taken := texts_of_mapM_decode readable
  have same := dialogue_eq idle taken (Nat.le_refl _)
  refine ⟨congrArg Prod.fst same, congrArg Prod.snd same, fun text htext blank s' idle' => ?_⟩
  obtain ⟨errors, unchanged⟩ := idle'.run_white blank (taken.noFeed text htext) abundant
  exact ⟨errors, unchanged, idle'.takeText⟩

/-- A line that fails and one that is blank, between two lines on the same variable. -/
theorem dialogue_runs_lines_failure :
    let s := Session.initial (fun _ => 0) {}
    let bytes := Scan.encode "var a = \"x\";\nprint b;\n\u3000\t\r\nprint a;".toList
    let texts := ["var a = \"x\";", "print b;", "\u3000\t", "print a;"]
    s.Idle ∧ (lines bytes).mapM Utf8.decode = .ok texts ∧
      onInput s bytes = ⟨"> > > > x\n> \n", "1: Undefined variable 'b'.\n", 0⟩ ∧
      onInput s bytes = ⟨stdout (s.runEach texts).1, stderr texts (s.runEach texts).1, 0⟩ ∧
      (s.run abundant "\u3000\t").1.errors = strays "\u3000\t" ∧
      (s.run abundant "\u3000\t").2 = s := by
  intro s bytes texts
  have idle : s.Idle := idle_initial _ rfl rfl
  have readable : (lines bytes).mapM Utf8.decode = .ok texts := by decide +kernel
  obtain ⟨answered, -, white⟩ := dialogue_runs_lines idle readable
  obtain ⟨errors, unchanged, -⟩ := white "\u3000\t" (by decide) (by decide +kernel) s idle
  exact ⟨idle, readable, by decide +kernel, answered, errors, unchanged⟩

/-- Not all that the runs of the lines report is reported: a line with nothing but a no-break space
is passed over, and its run has an error. -/
theorem white_space_unreported :
    let s := Session.initial (fun _ => 0) {}
    let bytes := Scan.encode "\u00a0\n".toList
    (lines bytes).mapM Utf8.decode = .ok ["\u00a0"] ∧ onInput s bytes = ⟨"> > \n", "", 0⟩ ∧
      (s.run abundant "\u00a0").1.errors = [.lexical 1 (.strayCharacter '\u00a0')] := by
  decide +kernel

end Prompt

end Lox
