import Lox.Proofs.Parse.InStep

/-!
# A parse sees only kinds

Two lists of tokens of the same kinds, one by one, are read in step: whatever their lexemes, lines
and payloads are, positions that have come as far in both lists have tokens of one kind in view, and
so every rule, and recovery after a fault, takes the same way in both.

The relation between the two positions is that they have come to the same place of their lists.
Each step keeps it, and what is read at a place corresponds to what is read at that place of the
other list; so trees and messages correspond place by place, and the payloads of tokens are carried
along without being looked at.

* `Pairing.places` — tokens correspond that stand at one place of their lists.
* `Position.Beside`, `Position.tandem` — positions that have come as far, and that they stay so.
* `parse_by_kinds` — **lists of the same kinds are parsed to trees of one shape**, with the same
  faults at the same places.
-/

namespace Lox

open Parse

/-- Tokens correspond that stand at one place of two lists of the same kinds, and identities that
are given out as the same one in order, from `first` and from `first'` on. -/
def Pairing.places {tokens tokens' : List Token}
    (same : tokens.map Token.kind = tokens'.map Token.kind) (first first' : NodeId) : Pairing where
  tokens t t' := ∃ i : Nat, tokens[i]? = some t ∧ tokens'[i]? = some t'
  nodes id id' := id + first' = id' + first
  kind_eq := by
    rintro t t' ⟨i, ht, ht'⟩
    have here := congrArg (·[i]?) same
    simpa [ht, ht'] using here

namespace Parse.Position

section
variable {tokens tokens' : List Token} (same : tokens.map Token.kind = tokens'.map Token.kind)
  (first first' : NodeId)

/-- Positions in two lists that have come as far, with corresponding faults. -/
structure Beside (p q : Position) : Prop where
  tokens : p.tokens.toList = tokens
  tokens' : q.tokens.toList = tokens'
  current : p.current = q.current
  nextNode : (Pairing.places same first first').nodes p.nextNode q.nextNode
  faults : List.Forall₂ (Fault.Paired (.places same first first')) p.faults.toList q.faults.toList

variable {same first first'} {p q : Position}

namespace Beside

theorem size (h : p.Beside same first first' q) : p.tokens.size = q.tokens.size := by
  have lengths := congrArg List.length same
  rwa [← h.tokens, ← h.tokens', List.length_map, List.length_map] at lengths

/-- What stands at one place of both lists corresponds. -/
theorem at_place (h : p.Beside same first first' q) {i j : Nat} (hij : i = j)
    (hi : i < p.tokens.size) (hj : j < q.tokens.size) :
    (Pairing.places same first first').tokens p.tokens[i] q.tokens[j] := by
  subst hij
  refine ⟨i, ?_, ?_⟩
  · rw [← h.tokens, Array.getElem?_toList, Array.getElem?_eq_getElem hi]
  · rw [← h.tokens', Array.getElem?_toList, Array.getElem?_eq_getElem hj]

/-- The tokens in view correspond. -/
theorem peek (h : p.Beside same first first' q) :
    (Pairing.places same first first').tokens p.peek q.peek :=
  h.at_place (by rw [h.current, h.size]) _ _

theorem previous (h : p.Beside same first first' q) :
    (Pairing.places same first first').tokens p.previous q.previous :=
  h.at_place (by rw [h.current]) _ _

/-- Both positions are at the end, or neither is. -/
theorem isAtEnd (h : p.Beside same first first' q) : p.isAtEnd = q.isAtEnd := by
  rw [Position.isAtEnd, Position.isAtEnd, h.size, h.current, Pairing.kind_eq _ h.peek]

/-- Both go on by one token. -/
theorem advance (h : p.Beside same first first' q) :
    p.advance.Beside same first first' q.advance := by
  have ends := h.isAtEnd
  unfold Position.advance
  by_cases hp : p.isAtEnd = true
  · rw [dif_pos hp, dif_pos (ends ▸ hp)]
    exact h
  · rw [dif_neg hp, dif_neg (ends ▸ hp)]
    exact ⟨h.tokens, h.tokens', congrArg (· + 1) h.current, h.nextNode, h.faults⟩

/-- Statements can begin at the same places of both lists. -/
theorem toStatement (h : p.Beside same first first' q) :
    p.toStatement.Beside same first first' q.toStatement := by
  have ends := h.isAtEnd
  have before := Pairing.kind_eq _ h.previous
  have ahead := Pairing.kind_eq _ h.peek
  fun_induction Position.toStatement p generalizing q with
  | case1 p hend =>
      rw [toStatement.eq_def q, if_pos (ends ▸ hend)]
      exact h
  | case2 p hend begins =>
      rw [toStatement.eq_def q, if_neg (ends ▸ hend), if_pos (before ▸ ahead ▸ begins)]
      exact h
  | case3 p hend inside ih =>
      rw [toStatement.eq_def q, if_neg (ends ▸ hend), if_neg (before ▸ ahead ▸ inside)]
      exact ih h.advance h.advance.isAtEnd (Pairing.kind_eq _ h.advance.previous)
        (Pairing.kind_eq _ h.advance.peek)

/-- Both record the fault and go on at the same place. -/
theorem recover (h : p.Beside same first first' q) {e e' : Fault}
    (he : e.Paired (.places same first first') e') :
    (p.recover e).Beside same first first' (q.recover e') := by
  have recorded : Beside same first first' { p with faults := p.faults.push e }
      { q with faults := q.faults.push e' } := by
    refine ⟨h.tokens, h.tokens', h.current, h.nextNode, ?_⟩
    rw [Array.toList_push, Array.toList_push]
    exact List.rel_append h.faults (.cons he .nil)
  exact recorded.advance.toStatement

end Beside

/-- Positions that have come as far stay so. -/
theorem tandem : Tandem (.places same first first') (Beside same first first') where
  atEnd h := h.isAtEnd
  seen h := h.peek
  advance h := h.advance
  mint h := by
    have next : _ + first' = _ + first := h.nextNode
    refine ⟨next, h.tokens, h.tokens', h.current, ?_, h.faults⟩
    calc _ + 1 + first' = _ + first' + 1 := Nat.add_right_comm _ _ _
      _ = _ + first + 1 := congrArg (· + 1) next
      _ = _ + 1 + first := Nat.add_right_comm _ _ _
  recover he h := h.recover he

end

end Parse.Position

/-- Two results of parses of one shape: statements and faults correspond one by one. -/
structure Parsed.Paired (p : Pairing) (x y : Parsed) : Prop where
  statements : Stmt.PairedAll p x.statements y.statements
  faults : List.Forall₂ (Fault.Paired p) x.faults y.faults
  nextNode : p.nodes x.nextNode y.nextNode

/-- Lists of the same kinds are parsed in step. -/
theorem parse_paired {tokens tokens' : List Token}
    (same : tokens.map Token.kind = tokens'.map Token.kind) (first first' : NodeId) :
    (parse tokens first).Paired (.places same first first') (parse tokens' first') := by
  have lengths : tokens.length = tokens'.length := by simpa using congrArg List.length same
  have begun : (Pairing.places same first first').nodes first first' := Nat.add_comm first first'
  unfold parse
  by_cases nonempty : 0 < tokens.toArray.size
  · have nonempty' : 0 < tokens'.toArray.size := by simpa [← lengths] using nonempty
    rw [dif_pos nonempty, dif_pos nonempty', ← lengths]
    have start : Position.Beside same first first'
        ⟨tokens.toArray, 0, first, #[], nonempty, Nat.zero_le _⟩
        ⟨tokens'.toArray, 0, first', #[], nonempty', Nat.zero_le _⟩ :=
      ⟨rfl, rfl, rfl, begun, .nil⟩
    have read := Position.tandem.program (tokens.length + 1) start
    revert read
    dsimp only
    split
    next ss p ss' q hp hq =>
      rw [hp, hq]
      rintro ⟨left, hss⟩
      exact ⟨hss, left.faults, left.nextNode⟩
    next e p e' q hp hq =>
      rw [hp, hq]
      rintro ⟨left, he⟩
      have reported : List.Forall₂ (Fault.Paired (.places same first first'))
          (p.faults.push e).toList (q.faults.push e').toList := by
        rw [Array.toList_push, Array.toList_push]
        exact List.rel_append left.faults (.cons he .nil)
      exact ⟨.nil, reported, left.nextNode⟩
    next => exact False.elim
  · have empty' : ¬0 < tokens'.toArray.size := by simpa [← lengths] using nonempty
    rw [dif_neg nonempty, dif_neg empty']
    exact ⟨.nil, .nil, begun⟩

/-- **Lists of the same kinds are parsed to trees of one shape.**  If two lists of tokens have the
same kinds one by one, they are parsed to as many statements, of the same shapes, in which the
tokens and the constants at corresponding places come from the same places of the two lists, and so
do the lines of the faults, of which there are as many, with the same messages in order.  Lexemes,
payloads and lines do not change how a program is read. -/
theorem parse_by_kinds {tokens tokens' : List Token}
    (same : tokens.map Token.kind = tokens'.map Token.kind) (first first' : NodeId) :
    List.Forall₂ (Stmt.Paired (.places same first first')) (parse tokens first).statements
        (parse tokens' first').statements ∧
      List.Forall₂
        (fun d d' => d.message = d'.message ∧ ∃ (i : Nat) (t t' : Token),
          tokens[i]? = some t ∧ tokens'[i]? = some t' ∧ d.line = t.line ∧ d'.line = t'.line)
        (parse tokens first).diagnostics (parse tokens' first').diagnostics := by
  have paired := parse_paired same first first'
  refine ⟨Stmt.pairedAll_iff.1 paired.statements, ?_⟩
  rw [Parsed.diagnostics, Parsed.diagnostics, List.forall₂_map_left_iff,
    List.forall₂_map_right_iff]
  refine paired.faults.imp ?_
  rintro ⟨line, fault⟩ ⟨line', fault'⟩ ⟨rfl, t, t', ⟨i, ht, ht'⟩, hline, hline'⟩
  exact ⟨rfl, i, t, t', ht, ht', hline, hline'⟩

/-- A statement without its operand, then one that is read: the names, numbers and lines of the two
lists have nothing in common. -/
theorem parse_by_kinds_recovered :
    let tokens : List Token := [⟨.keyword .print, "print", 1, ()⟩, ⟨.symbol .semicolon, ";", 1, ()⟩,
      ⟨.identifier, "a", 2, ()⟩, ⟨.symbol .equal, "=", 2, ()⟩, ⟨.number, "7", 2, 7⟩,
      ⟨.symbol .semicolon, ";", 3, ()⟩, ⟨.eof, "", 3, ()⟩]
    let tokens' : List Token := [⟨.keyword .print, "PRINT", 9, ()⟩, ⟨.symbol .semicolon, "", 8, ()⟩,
      ⟨.identifier, "print", 5, ()⟩, ⟨.symbol .equal, "+", 4, ()⟩, ⟨.number, "x", 4, 0.5⟩,
      ⟨.symbol .semicolon, ")", 6, ()⟩, ⟨.eof, "z", 0, ()⟩]
    let same : tokens.map Token.kind = tokens'.map Token.kind := rfl
    tokens.map Token.kind = tokens'.map Token.kind ∧
      (parse tokens 0).statements.length = 1 ∧
      (parse tokens 0).diagnostics.map Diagnostic.line = [1] ∧
      (parse tokens' 4).diagnostics.map Diagnostic.line = [8] ∧
      List.Forall₂ (Stmt.Paired (.places same 0 4)) (parse tokens 0).statements
        (parse tokens' 4).statements := by
  intro tokens tokens' same
  exact ⟨same, by decide +kernel, by decide +kernel, by decide +kernel,
    (parse_by_kinds same 0 4).1⟩

end Lox
