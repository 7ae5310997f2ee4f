import Lox.Proofs.Number.Texts
import Lox.Proofs.Printed.Trees
import Lox.Proofs.Tree.Paired
import Lox.Proofs.Tree.Relabel

/-!
# Words of printed trees

What is printed for a name, an operator or a constant is the lexeme of a token: a word, from which
the token can be cut again.  Constants that are strings are not among them, for these are printed
without their quotes, and no text of a source is the infinite number that is printed as `inf`.

* `Token.bare` — a token without its line.
* `Token.ofWord`, `Token.Spelt.ofWord` — the token that a word is, and that it is the one printed.
* `Token.Spelt.plain` — lexemes are words.
* `Literal.Legible`, `Literal.Readable` — constants that are printed as tokens that stand for them.
-/

namespace Lox

open Number

/-- A token without its line. -/
def Token.bare (t : Token) : Token :=
  t.mapLine fun _ => 0

/-! ## Tokens

The lexeme of a token that was scanned determines the token but for its line. -/

/-- The token that a word is. -/
def Token.ofWord (word : List Char) : Token :=
  match pieces word with
  | [.token kind text payload] => ⟨kind, String.ofList text, 0, payload⟩
  | _ => default

/-- A lexeme is cut out as the token that it is from. -/
theorem Token.Spelt.ofWord {t : Token} (h : t.Spelt) : Token.ofWord t.lexeme.toList = t.bare := by
  have cut : pieces t.lexeme.toList = [.token t.kind t.lexeme.toList t.payload] := by
    have first := Spells.pieces h .ending
    rwa [List.append_nil] at first
  rw [Token.ofWord, cut]
  simp only [String.ofList_toList]
  rfl

/-- A symbol is spelt in one way. -/
theorem Spells.symbol_text {s : Symbol} {text : List Char} {payload : Unit}
    (h : Spells (.symbol s) text payload) : text = s.spelling := by
  cases h
  rfl

/-- So is a keyword. -/
theorem Spells.keyword_text {k : Keyword} {text : List Char} {payload : Unit}
    (h : Spells (.keyword k) text payload) : text = k.spelling := by
  cases h
  rfl

/-- The spelling of a symbol is read back to the symbol. -/
theorem Token.Spelt.ofWord_symbol {t : Token} (h : t.Spelt) {s : Symbol}
    (kind : t.kind = .symbol s) : Token.ofWord s.spelling = t.bare := by
  have back := h.ofWord
  obtain ⟨kind', lexeme, line, payload⟩ := t
  obtain rfl : kind' = .symbol s := kind
  rwa [Spells.symbol_text h] at back

theorem Token.Spelt.ofWord_keyword {t : Token} (h : t.Spelt) {k : Keyword}
    (kind : t.kind = .keyword k) : Token.ofWord k.spelling = t.bare := by
  have back := h.ofWord
  obtain ⟨kind', lexeme, line, payload⟩ := t
  obtain rfl : kind' = .keyword k := kind
  rwa [Spells.keyword_text h] at back

/-- The kinds whose lexemes are no words: parentheses, texts that can have spaces, and nothing. -/
def looseKinds : List Kind :=
  [.symbol .leftParen, .symbol .rightParen, .string, .eof]

theorem Form.inWord_of {p : Char → Bool} (space : p ' ' = false) (opening : p '(' = false)
    (closing : p ')' = false) {c : Char} (h : p c = true) : inWord c = true := by
  have ne {d : Char} (hd : p d = false) : c ≠ d := fun same =>
    Bool.false_ne_true (hd.symm.trans (same ▸ h))
  simp [inWord, ne space, ne opening, ne closing]

theorem inWord_of_isDigit {c : Char} (h : c.isDigit = true) : Form.inWord c = true :=
  Form.inWord_of (by decide) (by decide) (by decide) h

theorem isWord_digits {c : Char} {cs : List Char} (digit : c.isDigit = true)
    (digits : ∀ d ∈ cs, d.isDigit = true) : Form.IsWord (c :: cs) :=
  List.forall_mem_cons.2 ⟨inWord_of_isDigit digit, fun d hd => inWord_of_isDigit (digits d hd)⟩

theorem inWord_of_isWordChar {c : Char} (h : Piece.isWordChar c = true) : Form.inWord c = true :=
  Form.inWord_of (by decide) (by decide) (by decide) h

/-- The texts of all other kinds are words. -/
theorem Spells.isWord {kind : Kind} {text : List Char} {payload : kind.Payload}
    (h : Spells kind text payload) (tight : kind ∉ looseKinds) : text ≠ [] ∧ Form.IsWord text := by
  cases h with
  | symbol s =>
      have word : s.spelling ≠ [] ∧ s.spelling.all Form.inWord = true := by
        revert tight
        cases s <;> decide
      exact ⟨word.1, List.all_eq_true.1 word.2⟩
  | keyword k =>
      have word : k.spelling ≠ [] ∧ k.spelling.all Form.inWord = true := by
        cases k <;> decide
      exact ⟨word.1, List.all_eq_true.1 word.2⟩
  | identifier letter word =>
      have first := inWord_of_isWordChar (Bool.or_eq_true_iff.2 (.inl letter))
      exact ⟨List.cons_ne_nil _ _,
        List.forall_mem_cons.2 ⟨first, fun c hc => inWord_of_isWordChar (word c hc)⟩⟩
  | string => exact absurd (by decide) tight
  | whole digit digits => exact ⟨List.cons_ne_nil _ _, isWord_digits digit digits⟩
  | fraction digit digits digit' digits' =>
      refine ⟨List.cons_ne_nil _ _, List.forall_mem_append.2 ⟨isWord_digits digit digits, ?_⟩⟩
      exact List.forall_mem_cons.2 ⟨by decide, isWord_digits digit' digits'⟩

theorem Token.Spelt.plain {t : Token} (h : t.Spelt) (tight : t.kind ∉ looseKinds) :
    t.form.Plain :=
  Spells.isWord h tight

/-! ## Constants

`nil` and the two truth values are keywords; a number is printed with the fewest digits that read
back to it. -/

/-- A constant that is no string and no infinite number. -/
def Literal.Legible : Literal → Prop
  | number x => ∀ negative, decode x ≠ .infinite negative
  | string _ => False
  | _ => True

theorem Literal.ofToken?_bare (t : Token) : Literal.ofToken? t.bare = Literal.ofToken? t := by
  obtain ⟨kind, lexeme, line, payload⟩ := t
  cases kind with
  | keyword k => cases k <;> rfl
  | _ => rfl

/-- A constant is printed as a token that stands for it. -/
def Literal.Readable (v : Literal) : Prop :=
  ∃ t : Token, t.Spelt ∧ t.kind ∉ looseKinds ∧ t.lexeme = v.text ∧ Literal.ofToken? t = some v

theorem Literal.readable_nil : Readable nil :=
  ⟨⟨.keyword .nil, "nil", 0, ()⟩, Spells.keyword .nil, by decide, rfl, rfl⟩

theorem Literal.readable_bool (b : Bool) : Readable (bool b) := by
  cases b with
  | true => exact ⟨⟨.keyword .true, "true", 0, ()⟩, Spells.keyword .true, by decide, rfl, rfl⟩
  | false => exact ⟨⟨.keyword .false, "false", 0, ()⟩, Spells.keyword .false, by decide, rfl, rfl⟩

/-- A finite number is printed as a token that stands for it. -/
theorem Literal.readable_number {x : Float} {m e : Nat} (finite : decode x = .finite false m e) :
    Readable (number x) :=
  ⟨⟨.number, Literal.numberText x, 0, x⟩, Literal.spells_numberText finite,
    (by decide : Kind.number ∉ looseKinds), rfl, rfl⟩

/-- A number of a source is infinite or a finite magnitude. -/
theorem Spells.decode_number {text : List Char} {x : Float} (h : Spells .number text x) :
    decode x = .infinite false ∨ ∃ m e, decode x = .finite false m e := by
  cases h with
  | whole => exact decode_ofDecimal _ _
  | fraction => exact decode_ofDecimal _ _

/-- A legible constant that a token of a source stands for is printed as such a token. -/
theorem Literal.readable_of_isConstant {t : Token} (spelt : t.kind ≠ .eof → t.Spelt) {v : Literal}
    (h : t.IsConstant v) (legible : v.Legible) : v.Readable := by
  cases h with
  | nil => exact readable_nil
  | true => exact readable_bool true
  | false => exact readable_bool false
  | string => exact legible.elim
  | number =>
      rcases (spelt Kind.noConfusion).decode_number with infinite | ⟨m, e, finite⟩
      · exact absurd infinite (legible _)
      · exact readable_number finite

end Lox
