import Lox.Proofs.Parse.Lines
import Lox.Proofs.Resolution.Relabel
import Lox.Proofs.Session.Reachable

/-!
# Sources that are joined

Whether a source is read and resolved has nothing to do with the session.  Two such sources, joined
by a line feed, are read as the program of the one followed by that of the other on later lines, and
the walk over the two records what it records for each.

Three things make this work.  A scan of joined sources is the scan of the one and then of the other,
on later lines.  A parse of tokens behind the declarations of a program without a fault goes on as
if it began there.  And the walk over the statements of a list carries on from the scopes that the
first ones leave, which at the top level are none.

* `Accepted` — a source that is read and resolved.
* `Accepted.read` — it is in every session.
* `Session.parsed_joined`, `Stmt.resolveAll_append` — joined sources and their programs.
-/

namespace Lox

open Resolution

/-! ## Programs

About trees that were read already: what one walk over both records. -/

/-- After the statements of a list as many scopes are open as before it. -/
theorem Stmt.ResolvedAll.length {l : Ledger} {ss : List Stmt} {scopes after : Scopes}
    (h : Stmt.ResolvedAll l scopes ss after) : after.length = scopes.length := by
  induction ss generalizing scopes with
  | nil => rw [h]
  | cons s ss ih =>
      obtain ⟨between, hs, hss⟩ := h
      rw [ih hss, hs.length]

/-- The walk over two lists is that over the first and, from the scopes it leaves, that over the
second; the entries are those of both. -/
theorem Stmt.resolveAll_append {ss ss' : List Stmt} {scopes between after : Scopes}
    {es es' : List Entry} (h : Stmt.resolveAll scopes ss = .ok (between, es))
    (h' : Stmt.resolveAll between ss' = .ok (after, es')) :
    Stmt.resolveAll scopes (ss ++ ss') = .ok (after, es ++ es') := by
  induction ss generalizing scopes es with
  | nil =>
      obtain ⟨rfl, rfl⟩ := Stmt.resolveAll_nil_eq_ok.1 h
      exact h'
  | cons s ss ih =>
      obtain ⟨next, first, others, hs, hss, rfl⟩ := Stmt.resolveAll_cons_eq_ok.1 h
      exact Stmt.resolveAll_cons_eq_ok.2
        ⟨next, first, others ++ es', hs, ih hss, List.append_assoc _ _ _⟩

/-- A ledger that gets the entries of a program says all that the walk found. -/
structure Resolution.Ledger.Accepts (l : Ledger) (program : List Stmt) (entries : List Entry)
    (next : NodeId) : Prop where
  walk : Stmt.resolveAll [] program = .ok ([], entries)
  extended : l.Extends (l.add program entries next)
  tidy : (l.add program entries next).Tidy
  resolved : Stmt.ResolvedAll (l.add program entries next) [] program []

/-- A program that is resolved without a fault, under identities that were not given out yet, is
accepted. -/
theorem Resolution.Ledger.Tidy.accepts {l : Ledger} {program : List Stmt} {entries : List Entry}
    {next : NodeId} (tidy : l.Tidy) (minted : Parse.Minted l.next next (Stmt.idsAll program))
    (shaped : Stmt.ShapedAll program) (h : resolve program = .ok entries) :
    l.Accepts program entries next := by
  obtain ⟨after, walk⟩ := resolve_eq_ok.1 h
  have keys := Stmt.keys_of_resolveAll program walk
  have resolved := Ledger.resolvedAll_add tidy minted shaped walk
  obtain rfl : after = [] := List.length_eq_zero_iff.1 resolved.length
  exact ⟨walk, Ledger.extends_add minted keys, tidy.add minted keys, resolved⟩

/-- Programs that are accepted one after the other are resolved as one. -/
theorem Resolution.Ledger.Accepts.append {l k : Ledger} {a b : List Stmt} {es es' : List Entry}
    {next next' : NodeId} (h : l.Accepts a es next) (h' : k.Accepts b es' next') :
    resolve (a ++ b) = .ok (es ++ es') :=
  resolve_eq_ok.2 ⟨_, Stmt.resolveAll_append h.walk h'.walk⟩

/-! ## Sources

Whether a source is accepted can be seen in any session, for in every other one it is read to the
same tree but for identities. -/

/-- A source that is read and resolved on its own. -/
def Accepted (source : String) : Prop :=
  ∃ program s s', (Session.initial (fun _ => 0) {}).read source = (.done program, s) ∧
    s.resolve program = (.done (), s')

namespace Session

variable {source : String}

/-- The parses of a source in two sessions differ in the identities of accesses. -/
theorem parsed_anonymous {s s' : Session} (h : (s.parsed source).faults = []) :
    (s'.parsed source).faults = [] ∧ (s'.parsed source).statements.map Stmt.anonymous =
      (s.parsed source).statements.map Stmt.anonymous := by
  have read := parse_mapLine (fun _ ht => Scan.ne_eof_of_mem_innerTokens ht) rfl
    (rfl : (Scan.endToken source).kind = .eof) h id s'.nextNode
  have tokens : (Scan.innerTokens source).map (Token.mapLine id) = Scan.innerTokens source :=
    List.map_id _
  rw [tokens, Stmt.map_relabel_id] at read
  exact read

end Session

/-- **Every session reads and resolves a source** that is read and resolved on its own. -/
theorem Accepted.read {source : String} (h : Accepted source) (s : Session) :
    Scan.faults (scan source) = [] ∧ (s.parsed source).faults = [] ∧
      ∃ entries, resolve (s.parsed source).statements = .ok entries := by
  obtain ⟨program, s₁, s₂, hread, hresolve⟩ := h
  obtain ⟨scanned, faultless, rfl, -⟩ := Session.read_eq_done hread
  obtain ⟨entries, hentries, -⟩ := Session.resolve_eq_done hresolve
  obtain ⟨faultless', same⟩ : (s.parsed source).faults = [] ∧ _ := Session.parsed_anonymous faultless
  refine ⟨scanned, faultless', (resolve_relabel_isOk (fun _ => 0) id _).1 ?_⟩
  have anonymous : (s.parsed source).statements.map (Stmt.relabel (fun _ => 0) id) = _ := same
  rw [anonymous]
  exact (resolve_relabel_isOk (fun _ => 0) id _).2 ⟨entries, hentries⟩

namespace Session

variable {a b : String}

/-- The parse of a source that is joined to another one: on later lines, and with identities of
its own. -/
def parsedAfter (a b : String) (s : Session) : Parsed :=
  parse ((Scan.innerTokens b).map (Token.mapLine (· + (1 + a.toList.count '\n'))) ++
    [Scan.endToken (a ++ "\n" ++ b)]) (s.parsed a).nextNode

/-- The later source gives out its identities behind those of the other one. -/
theorem minted_parsedAfter (s : Session) :
    Parse.Minted (s.parsed a).nextNode (s.parsedAfter a b).nextNode
      (Stmt.idsAll (s.parsedAfter a b).statements) :=
  parse_minted _ _

theorem mem_later {source : String} (lines : Nat → Nat) :
    ∀ t ∈ (Scan.innerTokens source).map (Token.mapLine lines), t.kind ≠ .eof := by
  intro t ht
  obtain ⟨token, htoken, rfl⟩ := List.mem_map.1 ht
  exact (Scan.ne_eof_of_mem_innerTokens htoken : token.kind ≠ .eof)

/-- The later source, read behind the others, has no fault either, and says the same on its lines.
-/
theorem parsedAfter_anonymous (hb : Accepted b) (s s' : Session) :
    (s.parsedAfter a b).faults = [] ∧
      Stmt.relabelAll (fun _ => 0) id (s.parsedAfter a b).statements =
        Stmt.relabelAll (fun _ => 0) (· + (1 + a.toList.count '\n'))
          (s'.parsed b).statements := by
  obtain ⟨-, faultless, -⟩ := hb.read s'
  obtain ⟨laterFaultless, anonymous⟩ := parse_mapLine
    (fun _ ht => Scan.ne_eof_of_mem_innerTokens ht) rfl
    (rfl : (Scan.endToken (a ++ "\n" ++ b)).kind = .eof) faultless
    (· + (1 + a.toList.count '\n')) (s.parsed a).nextNode
  refine ⟨laterFaultless, ?_⟩
  have composed := Stmt.relabelAll_relabelAll id (fun _ => 0) (· + (1 + a.toList.count '\n')) id
    (s'.parsed b).statements
  simp only [Stmt.relabelAll_eq_map] at composed ⊢
  exact anonymous.trans composed

/-- Read behind the other, the later source still has its declarations in their places. -/
theorem shaped_parsedAfter (hb : Accepted b) (s : Session) :
    Stmt.ShapedAll (s.parsedAfter a b).statements :=
  shaped_of_parse (mem_later _) rfl (parsedAfter_anonymous hb s s).1

/-- And it is resolved without a fault. -/
theorem resolve_parsedAfter (hb : Accepted b) (s : Session) :
    ∃ entries, Lox.resolve (s.parsedAfter a b).statements = .ok entries := by
  obtain ⟨-, -, accepted⟩ := hb.read s
  refine (resolve_relabel_isOk (fun _ => 0) id _).1 ?_
  rw [← Stmt.relabelAll_eq_map, (parsedAfter_anonymous hb s s).2, Stmt.relabelAll_eq_map]
  exact (resolve_relabel_isOk _ _ _).2 accepted

/-- **Joined sources are read one after the other.** -/
theorem parsed_joined (ha : Accepted a) (hb : Accepted b) (s : Session) :
    s.parsed (a ++ "\n" ++ b) = ⟨(s.parsed a).statements ++ (s.parsedAfter a b).statements, [],
      (s.parsedAfter a b).nextNode⟩ := by
  obtain ⟨scanned, faultless, -⟩ := ha.read s
  rw [parsed, Scan.innerTokens_append scanned]
  exact parse_append (fun _ ht => Scan.ne_eof_of_mem_innerTokens ht) (mem_later _) rfl rfl faultless
    (parsedAfter_anonymous hb s s).1

end Session

section
variable {l : Ledger} {a b : String} {s : Session} {entries : List Entry}

/-- The ledger of a session accepts a source that is read in it. -/
theorem Accepted.accepts (h : Accepted b) (tidy : l.Tidy) (next : l.next = s.nextNode)
    (hentries : resolve (s.parsed b).statements = .ok entries) :
    l.Accepts (s.parsed b).statements entries (s.parsed b).nextNode := by
  obtain ⟨-, faultless, -⟩ := h.read s
  refine tidy.accepts ?_ (Session.shaped_parsed faultless) hentries
  rw [next]
  exact Session.minted_parsed

/-- So does that of the source it is joined to. -/
theorem Accepted.accepts_after (h : Accepted b) (tidy : l.Tidy)
    (next : l.next = (s.parsed a).nextNode)
    (hentries : resolve (s.parsedAfter a b).statements = .ok entries) :
    l.Accepts (s.parsedAfter a b).statements entries (s.parsedAfter a b).nextNode := by
  refine tidy.accepts ?_ (Session.shaped_parsedAfter h s) hentries
  rw [next]
  exact s.minted_parsedAfter

end

/-- Joined sources are read and resolved if each of them is. -/
theorem Accepted.append {a b : String} (ha : Accepted a) (hb : Accepted b) :
    Accepted (a ++ "\n" ++ b) := by
  let s := Session.initial (fun _ => 0) {}
  obtain ⟨scannedA, -, es, hes⟩ := ha.read s
  obtain ⟨scannedB, -, -⟩ := hb.read s
  obtain ⟨es', hes'⟩ := Session.resolve_parsedAfter (a := a) hb s
  have first : Ledger.empty.Accepts _ es (s.parsed a).nextNode :=
    ha.accepts Ledger.tidy_empty rfl hes
  have second := hb.accepts_after first.tidy rfl hes'
  have parsed := Session.parsed_joined ha hb s
  have hresolve : resolve (s.parsed (a ++ "\n" ++ b)).statements = .ok (es ++ es') := by
    rw [parsed]
    exact first.append second
  exact ⟨_, _, _, Session.read_of_faultless _ (Scan.faults_append scannedA scannedB)
    (congrArg Parsed.faults parsed), Session.resolve_of_ok hresolve⟩

end Lox
