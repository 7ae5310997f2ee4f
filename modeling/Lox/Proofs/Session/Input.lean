import Mathlib
import Lox.CommandLine

/-!
# The lines of an input

A dialogue takes the first line off its input, time after time.  These are the lines that the line
feeds split the input into: a carriage return before a line feed is not part of the line, and there
is no line after the last line feed if nothing stands there.  The text of a line has no line feed
either, as a byte that is one stands for itself, and no other character is encoded with it.

* `Prompt.lines` — the lines of some bytes.
* `Prompt.lines_eq` — the first line is the one that a dialogue takes off.
* `Utf8.decode_noFeed` — the text of bytes without a line feed has none.
-/

namespace Lox

/-! ## Splitting

The first line ends before the first line feed, or with the input; the others are the lines of what
stands behind it. -/

namespace Prompt

/-- The lines of some bytes. -/
def lines (bytes : List UInt8) : List (List UInt8) :=
  let parts := bytes.splitOn 0x0A
  parts.dropLast.map withoutReturn ++ parts.getLast?.toList.filter fun part => !part.isEmpty

/-- What a dialogue takes off its input. -/
inductive Taken : List UInt8 → Option (List UInt8 × List UInt8) → Prop
  | none : Taken [] none
  | last {line : List UInt8} (noFeed : 0x0A ∉ line) (ne : line ≠ []) : Taken line (some (line, []))
  | feed {line : List UInt8} (noFeed : 0x0A ∉ line) (rest : List UInt8) :
      Taken (line ++ 0x0A :: rest) (some (withoutReturn line, rest))

/-- The three ways in which a line is taken: from an empty input, up to a line feed, or up to the
end. -/
theorem taken (bytes : List UInt8) : Taken bytes (nextLine? bytes) := by
  have noFeed : 0x0A ∉ bytes.takeWhile inLine := fun feed => by
    have := List.mem_takeWhile_imp feed
    revert this
    decide
  have whole := List.takeWhile_append_dropWhile (p := inLine) (l := bytes)
  unfold nextLine?
  cases bytes with
  | nil => exact .none
  | cons b bs =>
      rw [List.isEmpty_cons, if_neg Bool.false_ne_true]
      generalize (b :: bs).takeWhile inLine = line at noFeed whole ⊢
      cases hd : (b :: bs).dropWhile inLine with
      | nil =>
          obtain rfl : line = b :: bs := by simpa [hd] using whole
          exact .last noFeed (List.cons_ne_nil b bs)
      | cons stop rest =>
          have stops := List.head_dropWhile_not inLine (l := b :: bs) (by simp [hd])
          obtain rfl : stop = 0x0A := by simpa [hd, inLine] using stops
          rw [hd] at whole
          exact whole ▸ .feed noFeed rest

/-- The first line is the one that a dialogue takes off, and the others are those of what is
left. -/
theorem lines_eq (bytes : List UInt8) : lines bytes =
    match nextLine? bytes with
    | none => []
    | some (line, rest) => line :: lines rest := by
  have := taken bytes
  generalize nextLine? bytes = found at this ⊢
  cases this with
  | none => rfl
  | last noFeed ne => simp [lines, List.splitOn_eq_singleton noFeed, ne]
  | @feed line noFeed rest =>
      obtain ⟨part, parts, hrest⟩ := List.exists_cons_of_ne_nil (List.splitOn_ne_nil 0x0A rest)
      simp only [lines, List.splitOn_append_cons_self_of_not_mem noFeed, hrest,
        List.dropLast_cons_cons, List.map_cons, List.getLast?_cons_cons, List.cons_append]

variable {bytes line rest : List UInt8}

/-- Every line takes at least one byte. -/
theorem length_of_nextLine? (h : nextLine? bytes = some (line, rest)) :
    rest.length < bytes.length := by
  have := taken bytes
  rw [h] at this
  cases this with
  | last _ ne => exact List.length_pos_iff.2 ne
  | feed => simp only [List.length_append, List.length_cons]; omega

/-- A line without its carriage return has no byte that the line did not have. -/
theorem mem_withoutReturn {b : UInt8} (h : b ∈ withoutReturn line) : b ∈ line := by
  unfold withoutReturn at h
  split at h
  next reversed hr =>
    rw [← List.mem_reverse, hr]
    exact List.mem_cons_of_mem _ (List.mem_reverse.1 h)
  next => exact h

/-- A line has no line feed in it. -/
theorem noFeed_of_nextLine? (h : nextLine? bytes = some (line, rest)) : 0x0A ∉ line := by
  have := taken bytes
  rw [h] at this
  cases this with
  | last noFeed => exact noFeed
  | feed noFeed => exact fun feed => noFeed (mem_withoutReturn feed)

end Prompt

/-! ## Decoding

A decoder takes one byte that stands for itself, or a first byte and its continuations.  A line feed
can only come of the first: all other characters have bytes above those of ASCII only. -/

namespace Utf8

/-- A byte that begins a character is the character itself, or announces bytes that make up a code
point of at least 128. -/
theorem lead?_cases {b : Nat} {lead : Lead} (h : lead? b = some lead) :
    (lead.following = 0 ∧ lead.bits = b) ∨
      ∃ n, lead.following = n + 1 ∧ 0x80 ≤ lead.low ∧ lead.high ≤ 0xBF ∧
        128 ≤ (lead.bits * 64 + (lead.low - 0x80)) * 64 ^ n := by
  have wide {bits low high : Nat} (n : Nat) (hl : 0x80 ≤ low) (hh : high ≤ 0xBF)
      (h128 : 128 ≤ (bits * 64 + (low - 0x80)) * 64 ^ n)
      (h : some ⟨bits, n + 1, low, high⟩ = some lead) :
      ∃ n, lead.following = n + 1 ∧ 0x80 ≤ lead.low ∧ lead.high ≤ 0xBF ∧
        128 ≤ (lead.bits * 64 + (lead.low - 0x80)) * 64 ^ n := by
    cases h
    exact ⟨n, rfl, hl, hh, h128⟩
  unfold lead? at h
  split_ifs at h
  · cases h
    exact .inl ⟨rfl, rfl⟩
  · exact .inr (wide 0 (by decide) (by decide) (by omega) h)
  · exact .inr (wide 1 (by decide) (by decide) (by decide) h)
  · exact .inr (wide 1 (by decide) (by decide) (by decide) h)
  · exact .inr (wide 1 (by decide) (by decide) (by omega) h)
  · exact .inr (wide 2 (by decide) (by decide) (by decide) h)
  · exact .inr (wide 2 (by decide) (by decide) (by omega) h)
  · exact .inr (wide 2 (by decide) (by decide) (by decide) h)

variable {index length point low high following p : Nat} {bytes rest : List UInt8}

/-- Bytes that go on with a character add to its code point. -/
theorem continuation_ok
    (h : continuation index length point low high following bytes = .ok (p, rest)) :
    point * 64 ^ following ≤ p ∧ rest ⊆ bytes := by
  induction following generalizing length point low high bytes with
  | zero =>
      cases h
      exact ⟨(Nat.mul_one _).le, List.Subset.refl _⟩
  | succ following ih =>
      cases bytes with
      | nil => cases h
      | cons b bytes =>
          rw [continuation] at h
          split at h
          · obtain ⟨le, sub⟩ := ih h
            refine ⟨Nat.le_trans ?_ le, List.subset_cons_of_subset b sub⟩
            rw [Nat.pow_succ', ← Nat.mul_assoc]
            exact Nat.mul_le_mul_right _ (Nat.le_add_right _ _)
          · cases h

/-- The first of them adds what its range leaves it no way around. -/
theorem continuation_succ_ok (hlow : 0x80 ≤ low) (hhigh : high ≤ 0xBF)
    (h : continuation index length point low high (following + 1) bytes = .ok (p, rest)) :
    (point * 64 + (low - 0x80)) * 64 ^ following ≤ p ∧ rest ⊆ bytes := by
  cases bytes with
  | nil => cases h
  | cons b bytes =>
      rw [continuation] at h
      split at h
      next range =>
        obtain ⟨le, sub⟩ := continuation_ok h
        refine ⟨Nat.le_trans (Nat.mul_le_mul_right _ ?_) le, List.subset_cons_of_subset b sub⟩
        omega
      next => cases h

/-- Only a line feed decodes to one. -/
theorem first_noFeed {b : UInt8} {c : Char} (hb : b ≠ 0x0A)
    (h : first index b bytes = .ok (c, rest)) : c ≠ '\n' ∧ rest ⊆ bytes := by
  unfold first at h
  split at h
  · cases h
  next lead hlead =>
    cases hc : continuation index 1 lead.bits lead.low lead.high lead.following bytes with
    | error => rw [hc] at h; cases h
    | ok found =>
        obtain ⟨p, rest'⟩ := found
        rw [hc] at h
        cases h
        have other (hp : p ≠ 10) : Char.ofNat p ≠ '\n' := by
          intro same
          rw [Char.ofNat] at same
          split at same
          · exact hp (congrArg Char.toNat same)
          · cases same
        rcases lead?_cases hlead with ⟨following, bits⟩ | ⟨n, following, hlow, hhigh, wide⟩
        · rw [following, bits] at hc
          cases hc
          refine ⟨other fun same => hb (UInt8.toNat_inj.1 same), List.Subset.refl _⟩
        · rw [following] at hc
          obtain ⟨le, sub⟩ := continuation_succ_ok hlow hhigh hc
          exact ⟨other (by omega), sub⟩

/-- By induction on the bound: the first character is none, and those of the rest are none. -/
theorem chars_noFeed {size bound : Nat} {cs : List Char} (noFeed : 0x0A ∉ bytes)
    (h : chars size bound bytes = .ok cs) : '\n' ∉ cs := by
  induction bound generalizing bytes cs with
  | zero => cases h; exact List.not_mem_nil
  | succ bound ih =>
      cases bytes with
      | nil => cases h; exact List.not_mem_nil
      | cons b bytes =>
          obtain ⟨hb, hbs⟩ := List.ne_and_not_mem_of_not_mem_cons noFeed
          rw [chars] at h
          cases hf : first (size - (bytes.length + 1)) b bytes with
          | error => rw [hf] at h; cases h
          | ok found =>
              obtain ⟨c, rest⟩ := found
              rw [hf] at h
              cases hr : chars size bound rest with
              | error => simp only [bind, Except.bind, hr] at h; cases h
              | ok cs' =>
                  simp only [bind, Except.bind, hr] at h
                  cases h
                  obtain ⟨hc, sub⟩ := first_noFeed (Ne.symm hb) hf
                  exact List.not_mem_cons_of_ne_of_not_mem hc.symm
                    (ih (fun feed => hbs (sub feed)) hr)

/-- The text of bytes without a line feed has none. -/
theorem decode_noFeed {text : String} (noFeed : 0x0A ∉ bytes) (h : decode bytes = .ok text) :
    '\n' ∉ text.toList := by
  unfold decode at h
  cases hc : chars bytes.length bytes.length bytes with
  | error => rw [hc] at h; cases h
  | ok cs =>
      rw [hc] at h
      cases h
      rw [String.toList_ofList]
      exact chars_noFeed noFeed hc

end Utf8

end Lox
