import Mathlib.Data.List.TakeWhile

/-!
# Lists in parentheses

A text made of words, spaces and parentheses can be read in one way only, as long as no word has a
space or a parenthesis in it: a word goes up to the first character of another kind, and what is
there says how the text goes on.

* `Form` — a word, or a list of forms in parentheses, with a label before them.
* `Form.text` — how a form is written.
* `Form.Plain` — a form whose words are not empty and have neither spaces nor parentheses.
* `Form.text_injective` — plain forms that are written the same are the same.
-/

namespace Lox

/-- A word, or a list of forms in parentheses with a label right before them. -/
inductive Form where
  | word (text : List Char)
  | list (label : List Char) (items : List Form)

namespace Form

/-! ## How forms are written

By recursion on a form and on the list inside of it. -/

mutual

/-- A word as it is, a list in parentheses. -/
def text : Form → List Char
  | .word w => w
  | .list label items => label ++ '(' :: (inside items ++ [')'])

/-- Forms with a space between them. -/
def inside : List Form → List Char
  | [] => []
  | f :: fs => f.text ++ others fs

/-- Forms with a space before each. -/
def others : List Form → List Char
  | [] => []
  | f :: fs => ' ' :: (f.text ++ others fs)

end

/-! ## Plain forms

A word that is not empty and has no space and no parenthesis in it ends where it ends, whatever
follows. -/

/-- Neither a space nor a parenthesis. -/
def inWord (c : Char) : Bool :=
  c != ' ' && c != '(' && c != ')'

/-- A text without spaces and parentheses. -/
def IsWord (w : List Char) : Prop :=
  ∀ c ∈ w, inWord c = true

mutual

/-- The words of a form are not empty, and neither they nor its labels have a space or a
parenthesis. -/
def Plain : Form → Prop
  | .word w => w ≠ [] ∧ IsWord w
  | .list label items => IsWord label ∧ AllPlain items

/-- All of the forms are plain. -/
def AllPlain : List Form → Prop
  | [] => True
  | f :: fs => f.Plain ∧ AllPlain fs

end

/-- What can stand behind a form: nothing, or a text that does not go on with a word or with an
opening parenthesis. -/
def Ends (rest : List Char) : Prop :=
  ∀ c ∈ rest.head?, c = ' ' ∨ c = ')'

/-- What follows a form in a list is a space or the closing parenthesis. -/
theorem ends_others (fs : List Form) (rest : List Char) : Ends (others fs ++ ')' :: rest) := by
  cases fs with
  | nil => simp [Ends, others]
  | cons f fs => simp [Ends, others]

/-- An opening parenthesis does not end a form. -/
theorem not_ends_open (rest : List Char) : ¬Ends ('(' :: rest) := by
  simp [Ends]

/-! ## Reading

What is written first decides which form it is, and the rest is read after it.  Forms and lists are
read in one recursion. -/

/-- A word goes up to the first character that is not in words. -/
theorem word_unique {w w' rest rest' : List Char} (hw : IsWord w) (hw' : IsWord w')
    (stop : ∀ c ∈ rest.head?, inWord c = false) (stop' : ∀ c ∈ rest'.head?, inWord c = false)
    (h : w ++ rest = w' ++ rest') : w = w' ∧ rest = rest' := by
  have front {w rest : List Char} (hw : IsWord w) (stop : ∀ c ∈ rest.head?, inWord c = false) :
      (w ++ rest).takeWhile inWord = w := by
    rw [List.takeWhile_append_of_pos hw]
    cases rest with
    | nil => exact List.append_nil w
    | cons c rest => rw [List.takeWhile_cons_of_neg (by simp [stop c rfl]), List.append_nil]
  have same : w = w' := by rw [← front hw stop, h, front hw' stop']
  subst same
  exact ⟨rfl, List.append_cancel_left h⟩

theorem Ends.stop {rest : List Char} (h : Ends rest) : ∀ c ∈ rest.head?, inWord c = false := by
  intro c hc
  rcases h c hc with rfl | rfl <;> rfl

theorem stop_open (rest : List Char) : ∀ c ∈ ('(' :: rest).head?, inWord c = false := by
  simp [inWord]

/-- A plain form begins with a character of a word, or with an opening parenthesis. -/
theorem text_ne_close {f : Form} (h : f.Plain) (rest rest' : List Char) :
    f.text ++ rest ≠ ')' :: rest' := by
  have other {w : List Char} (hw : IsWord w) {cs : List Char}
      (ne : w = [] → ∀ c ∈ cs.head?, c ≠ ')') (same : w ++ cs = ')' :: rest') : False := by
    cases w with
    | nil => exact ne rfl ')' (by rw [List.nil_append] at same; rw [same]; rfl) rfl
    | cons c w =>
        obtain rfl := (List.cons.inj same).1
        exact absurd (hw _ List.mem_cons_self) (by decide)
  cases f with
  | word w => exact other h.2 fun empty => absurd empty h.1
  | list l items =>
      rw [text, List.append_assoc]
      exact other h.1 fun _ c hc => by
        obtain rfl := Option.some.inj hc
        decide

mutual

/-- A plain form is the only one that a text begins with. -/
theorem text_unique : ∀ {f f' : Form} {rest rest' : List Char}, f.Plain → f'.Plain → Ends rest →
    Ends rest' → f.text ++ rest = f'.text ++ rest' → f = f' ∧ rest = rest'
  | .word w, .word w', rest, rest', h, h', ends, ends', same => by
      obtain ⟨rfl, rfl⟩ := word_unique h.2 h'.2 ends.stop ends'.stop same
      exact ⟨rfl, rfl⟩
  | .word w, .list l items, rest, rest', h, h', ends, _, same => by
      rw [text, text, List.append_assoc] at same
      obtain ⟨-, rfl⟩ := word_unique h.2 h'.1 ends.stop (stop_open _) same
      exact absurd ends (not_ends_open _)
  | .list l items, .word w, rest, rest', h, h', _, ends', same => by
      rw [text, text, List.append_assoc] at same
      obtain ⟨-, rfl⟩ := word_unique h.1 h'.2 (stop_open _) ends'.stop same
      exact absurd ends' (not_ends_open _)
  | .list l items, .list l' items', rest, rest', h, h', _, _, same => by
      rw [text, text, List.append_assoc, List.append_assoc] at same
      obtain ⟨rfl, behind⟩ := word_unique h.1 h'.1 (stop_open _) (stop_open _) same
      have behind := (List.cons.inj behind).2
      rw [List.append_eq, List.append_eq, List.append_assoc, List.append_assoc] at behind
      obtain ⟨rfl, rfl⟩ := inside_unique h.2 h'.2 behind
      exact ⟨rfl, rfl⟩

/-- So are the forms of a list, up to its closing parenthesis. -/
theorem inside_unique : ∀ {fs fs' : List Form} {rest rest' : List Char}, AllPlain fs →
    AllPlain fs' → inside fs ++ ')' :: rest = inside fs' ++ ')' :: rest' → fs = fs' ∧ rest = rest'
  | [], [], _, _, _, _, same => ⟨rfl, (List.cons.inj same).2⟩
  | [], f' :: fs', _, _, _, h', same => by
      rw [inside, inside, List.append_assoc] at same
      exact absurd same.symm (text_ne_close h'.1 _ _)
  | f :: fs, [], _, _, h, _, same => by
      rw [inside, inside, List.append_assoc] at same
      exact absurd same (text_ne_close h.1 _ _)
  | f :: fs, f' :: fs', _, _, h, h', same => by
      rw [inside, inside, List.append_assoc, List.append_assoc] at same
      obtain ⟨rfl, behind⟩ := text_unique h.1 h'.1 (ends_others _ _) (ends_others _ _) same
      obtain ⟨rfl, rfl⟩ := others_unique h.2 h'.2 behind
      exact ⟨rfl, rfl⟩

/-- And those behind its first form. -/
theorem others_unique : ∀ {fs fs' : List Form} {rest rest' : List Char}, AllPlain fs →
    AllPlain fs' → others fs ++ ')' :: rest = others fs' ++ ')' :: rest' → fs = fs' ∧ rest = rest'
  | [], [], _, _, _, _, same => ⟨rfl, (List.cons.inj same).2⟩
  | [], _ :: _, _, _, _, _, same => absurd (List.cons.inj same).1 (by decide)
  | _ :: _, [], _, _, _, _, same => absurd (List.cons.inj same).1 (by decide)
  | f :: fs, f' :: fs', _, _, h, h', same => by
      rw [others, others, List.cons_append, List.cons_append, List.append_assoc,
        List.append_assoc] at same
      obtain ⟨rfl, behind⟩ := text_unique h.1 h'.1 (ends_others _ _) (ends_others _ _)
        (List.cons.inj same).2
      obtain ⟨rfl, rfl⟩ := others_unique h.2 h'.2 behind
      exact ⟨rfl, rfl⟩

end

/-- **Plain forms that are written the same are the same.** -/
theorem text_injective {f f' : Form} (h : f.Plain) (h' : f'.Plain) (same : f.text = f'.text) :
    f = f' := by
  have nothing : Ends [] := fun _ h => nomatch h
  exact (text_unique h h' nothing nothing (by rw [same])).1

end Form

end Lox
