import Mathlib
import Lox.Text.Blank
import Lox.Proofs.Scan.Scanning

/-!
# The scan of white space

The scanner passes over four characters of white space; every other one is a fault of its own, as
no token begins with it.  So a line of white space has no token but the end, and as many faults as
it has characters that are no blanks to the scanner.

* `Piece.first_white` — what a text that begins with white space begins with.
* `Scan.tokens_white`, `Scan.faults_white` — the tokens and the faults of a line of white space.
-/

namespace Lox

/-! ## One character

A character of white space is below all letters and digits and symbols, or above ASCII. -/

/-- White space is up to the space, or from the next line character on. -/
theorem isBlankChar_cases {c : Char} (h : isBlankChar c = true) :
    c.toNat ≤ 0x20 ∨ 0x85 ≤ c.toNat := by
  simp [isBlankChar, blankRanges] at h
  omega

/-- White space is in none of the classes that tokens begin with. -/
theorem eq_false_of_isBlankChar {p : Char → Bool} {c : Char} (h : isBlankChar c = true)
    (hp : ∀ d, p d = true → 0x20 < d.toNat ∧ d.toNat < 0x85) : p c = false := by
  refine Bool.eq_false_iff.2 fun inside => ?_
  have range := hp c inside
  rcases isBlankChar_cases h with low | high <;> omega

theorem isDigit_white {c : Char} (h : isBlankChar c = true) : c.isDigit = false := by
  refine eq_false_of_isBlankChar h fun d hd => ?_
  simp only [Char.isDigit, ge_iff_le, Bool.and_eq_true, decide_eq_true_eq, UInt32.le_iff_toNat_le]
    at hd
  obtain ⟨low, high⟩ : 48 ≤ d.toNat ∧ d.toNat ≤ 57 := hd
  omega

theorem isLetter_white {c : Char} (h : isBlankChar c = true) : Piece.isLetter c = false := by
  refine eq_false_of_isBlankChar h fun d hd => ?_
  simp only [Piece.isLetter, Char.isAlpha, Char.isUpper, Char.isLower, ge_iff_le, Bool.or_eq_true,
    Bool.and_eq_true, decide_eq_true_eq, beq_iff_eq, UInt32.le_iff_toNat_le] at hd
  obtain (⟨low, high⟩ | ⟨low, high⟩) | rfl : ((65 ≤ d.toNat ∧ d.toNat ≤ 90) ∨
    (97 ≤ d.toNat ∧ d.toNat ≤ 122)) ∨ d = '_' := hd
  · omega
  · omega
  · decide

/-- It is none of the characters in between. -/
theorem eq_char_white {c : Char} (h : isBlankChar c = true) (d : Char)
    (hd : 0x20 < d.toNat ∧ d.toNat < 0x85) : (c == d) = false :=
  eq_false_of_isBlankChar (p := (· == d)) h fun _ same => by rwa [beq_iff_eq.1 same]

/-- No symbol begins with white space. -/
theorem Symbol.ofSpelling?_white {c : Char} (h : isBlankChar c = true) (cs : List Char) :
    Symbol.ofSpelling? (c :: cs) = none := by
  have visible (s : Symbol) : s.spelling.any isBlankChar = false := by
    cases s <;> decide
  cases found : Symbol.ofSpelling? (c :: cs) with
  | none => rfl
  | some s =>
      have inside : c ∈ s.spelling := by
        rw [Piece.spelling_of_ofSpelling? found]
        exact List.mem_cons_self
      have blank : s.spelling.any isBlankChar = true := List.any_eq_true.2 ⟨c, inside, h⟩
      cases blank.symm.trans (visible s)

namespace Piece

/-- White space as a piece: trivia to the scanner, or a character that no token begins with. -/
def ofWhite (c : Char) : Piece :=
  if isBlank c then .trivia [c] else .stray c

/-- A text that begins with white space has that character as its first piece. -/
theorem first_white {c : Char} (h : isBlankChar c = true) (cs : List Char) :
    first c cs = (ofWhite c, cs) := by
  have symbol : firstSymbol c cs = (.stray c, cs) := by
    have pair : (cs.head?.bind fun d => Symbol.ofSpelling? [c, d]) = none := by
      cases cs.head? with
      | none => rfl
      | some d => exact Symbol.ofSpelling?_white h [d]
    simp only [firstSymbol, pair, Symbol.ofSpelling?_white h []]
  have slash := eq_char_white h '/' (by decide)
  have quote := eq_char_white h '"' (by decide)
  unfold first ofWhite
  split
  · rfl
  · simp only [slash, quote, isDigit_white h, isLetter_white h, symbol, Bool.false_and,
      Bool.false_eq_true, if_false]

end Piece

/-! ## A line

All characters of a line are white space, and each is a piece of its own. -/

/-- The pieces of a line of white space are its characters. -/
theorem pieces_white {text : List Char} (h : ∀ c ∈ text, isBlankChar c = true) :
    pieces text = text.map Piece.ofWhite := by
  induction text with
  | nil => rfl
  | cons c cs ih =>
      obtain ⟨hc, hcs⟩ := List.forall_mem_cons.1 h
      rw [pieces_cons, Piece.first_white hc, ih hcs, List.map_cons]

namespace Scan

/-- The items of white space on one line: a fault for each character that is no blank. -/
theorem items_white (line : Nat) {text : List Char} (noFeed : '\n' ∉ text) :
    items line (text.map Piece.ofWhite) =
      (text.filter fun c => !Piece.isBlank c).map (fun c => .fault line (.strayCharacter c)) ++
        [.token ⟨.eof, "", line, ()⟩] := by
  induction text with
  | nil => rfl
  | cons c cs ih =>
      obtain ⟨hc, hcs⟩ := List.ne_and_not_mem_of_not_mem_cons noFeed
      have sameLine : line + [c].count '\n' = line := by
        rw [List.count_singleton, if_neg (by simpa using Ne.symm hc), Nat.add_zero]
      rw [List.map_cons, items]
      cases hb : Piece.isBlank c with
      | true =>
          simp only [Piece.ofWhite, hb, if_true, Piece.text, sameLine, Item.ofPiece?, ih hcs,
            List.filter_cons, Bool.not_true, Bool.false_eq_true, if_false]
      | false =>
          simp only [Piece.ofWhite, hb, Bool.false_eq_true, if_false, Piece.text, sameLine,
            Item.ofPiece?, ih hcs, List.filter_cons, Bool.not_false, if_true, List.map_cons,
            List.cons_append]

section
variable {source : String} (blank : isBlankLine source = true) (noFeed : '\n' ∉ source.toList)
include blank noFeed

/-- One fault for each character that is no blank to the scanner, and the end. -/
theorem scan_white : scan source =
    (source.toList.filter fun c => !Piece.isBlank c).map
      (fun c => .fault 1 (.strayCharacter c)) ++ [.token ⟨.eof, "", 1, ()⟩] := by
  rw [scan_eq, pieces_white (List.all_eq_true.1 blank), items_white 1 noFeed]

/-- A line of white space has no token but the end. -/
theorem tokens_white : tokens (scan source) = [⟨.eof, "", 1, ()⟩] := by
  rw [scan_white blank noFeed, tokens, List.filterMap_append, List.filterMap_map]
  simp [Function.comp_def, Item.token?]

/-- Its faults are the characters that are no blanks to the scanner. -/
theorem faults_white : faults (scan source) =
    (source.toList.filter fun c => !Piece.isBlank c).map fun c =>
      .lexical 1 (.strayCharacter c) := by
  rw [scan_white blank noFeed, faults, List.filterMap_append, List.filterMap_map,
    ← List.filterMap_eq_map]
  exact List.append_nil _

end

end Scan

end Lox
