import Lox.Scan

/-!
# Texts as bytes

All classes of characters that a scan asks for are classes of ASCII, and in the encoding of any
other character every byte is at least 128.  So a class of bytes stops a loop where the class of
characters does, and the places where it stops are between characters.

The scanner reads bytes and compares each with ASCII, the description of its tokens speaks of
characters.  One lemma relates the two for loops, given a class of bytes and a class of characters
that stop at the same places; then each class is checked once.

* `encode` — the bytes of a text.
* `Reads` — a class of bytes that stops where a class of characters does.
* `Reads.takeWhile_encode` — a loop over bytes is one over characters.
-/

namespace Lox.Scan

/-- The bytes of a text. -/
def encode (text : List Char) : List UInt8 :=
  text.flatMap String.utf8EncodeChar

@[simp]
theorem encode_nil : encode [] = [] :=
  rfl

@[simp]
theorem encode_append (xs ys : List Char) : encode (xs ++ ys) = encode xs ++ encode ys :=
  List.flatMap_append

theorem encode_cons (c : Char) (cs : List Char) :
    encode (c :: cs) = String.utf8EncodeChar c ++ encode cs :=
  rfl

theorem toList_bytes (source : String) : source.toUTF8.data.toList = encode source.toList := by
  have same := congrArg (fun b : ByteArray => b.data.toList) source.utf8Encode_toList
  simpa [List.utf8Encode, encode] using same.symm

/-! ## Single characters

A character of ASCII is one byte, and every other one has bytes from 128 on only. -/

/-- A character of a single byte. -/
def isAscii (c : Char) : Bool :=
  decide (c.toNat < 128)

/-- A character of ASCII is the byte of its number. -/
theorem encode_ascii {c : Char} (h : isAscii c = true) : String.utf8EncodeChar c = [c.toUInt8] := by
  have small : c.val.toNat ≤ 127 := Nat.le_of_lt_succ (of_decide_eq_true h)
  simp only [String.utf8EncodeChar, small, if_true]
  rfl

theorem toNat_toUInt8 {c : Char} (h : isAscii c = true) : c.toUInt8.toNat = c.toNat := by
  have small : c.toNat < 128 := of_decide_eq_true h
  show c.val.toNat % 256 = c.val.toNat
  exact Nat.mod_eq_of_lt (Nat.lt_trans small (by decide))

/-- The bytes of any other character: a first one, and those that go on with it. -/
theorem encode_wide {c : Char} (h : isAscii c = false) :
    ∃ b bs, String.utf8EncodeChar c = b :: bs ∧ 192 ≤ b.toNat ∧ ∀ b' ∈ bs, 128 ≤ b'.toNat := by
  have wide : ¬c.val.toNat ≤ 127 := fun small =>
    of_decide_eq_false h (Nat.lt_succ_of_le small)
  have bound : c.val.toNat < 1114112 := by
    have := c.valid
    simp only [UInt32.isValidChar, Nat.isValidChar] at this
    omega
  unfold String.utf8EncodeChar
  generalize c.val.toNat = v at wide bound
  simp only [if_neg wide]
  split
  next =>
    refine ⟨_, _, rfl, ?_, ?_⟩ <;> simp <;> omega
  next =>
    split
    next => refine ⟨_, _, rfl, ?_, ?_⟩ <;> simp <;> omega
    next => refine ⟨_, _, rfl, ?_, ?_⟩ <;> simp <;> omega

/-- The bytes that continue a character are those from 128 to 191. -/
theorem isContinuation_iff {b : UInt8} :
    Scanner.isContinuation b = true ↔ 128 ≤ b.toNat ∧ b.toNat ≤ 191 := by
  simp [Scanner.isContinuation, UInt8.le_iff_toNat_le]

/-- Behind a text, before a character, is a place between characters. -/
theorem first_byte (c : Char) :
    ∃ b bs, String.utf8EncodeChar c = b :: bs ∧ Scanner.isContinuation b = false := by
  cases h : isAscii c with
  | true =>
      refine ⟨_, [], encode_ascii h, ?_⟩
      have small : c.toNat < 128 := of_decide_eq_true h
      rw [← Bool.not_eq_true, isContinuation_iff, toNat_toUInt8 h]
      omega
  | false =>
      obtain ⟨b, bs, same, first, -⟩ := encode_wide h
      refine ⟨b, bs, same, ?_⟩
      rw [← Bool.not_eq_true, isContinuation_iff]
      omega

/-- Characters of ASCII are the same if their bytes are. -/
theorem toUInt8_inj {c d : Char} (hc : isAscii c = true) (hd : isAscii d = true) :
    c.toUInt8 = d.toUInt8 ↔ c = d := by
  refine ⟨fun h => ?_, congrArg _⟩
  have same := congrArg UInt8.toNat h
  rw [toNat_toUInt8 hc, toNat_toUInt8 hd] at same
  exact Char.toNat_inj.1 same

/-- A byte of ASCII is part of no other character. -/
theorem mem_utf8EncodeChar {a c : Char} (ha : isAscii a = true) :
    a.toUInt8 ∈ String.utf8EncodeChar c ↔ c = a := by
  cases hc : isAscii c with
  | true => rw [encode_ascii hc, List.mem_singleton, toUInt8_inj ha hc, eq_comm]
  | false =>
      obtain ⟨b, bs, same, first, others⟩ := encode_wide hc
      have small : a.toUInt8.toNat < 128 := by
        rw [toNat_toUInt8 ha]
        exact of_decide_eq_true ha
      refine ⟨fun hb => ?_, fun h => ?_⟩
      · rw [same] at hb
        rcases List.mem_cons.1 hb with rfl | hb
        · omega
        · exact absurd (others _ hb) (by omega)
      · rw [h, ha] at hc
        cases hc

/-! ## Loops

A loop over bytes stops at the encoding of the character that a loop over characters stops at. -/

/-- A class of bytes that holds all bytes of a character of the class of characters, and not the
first byte of any other one. -/
def Reads (p : Char → Bool) (q : UInt8 → Bool) : Prop :=
  ∀ c, (p c = true → ∀ b ∈ String.utf8EncodeChar c, q b = true) ∧
    (p c = false → ∃ b bs, String.utf8EncodeChar c = b :: bs ∧ q b = false)

namespace Reads

variable {p : Char → Bool} {q : UInt8 → Bool}

/-- **A loop over bytes takes the encoding of what one over characters takes.** -/
theorem takeWhile_encode (h : Reads p q) (cs : List Char) :
    (encode cs).takeWhile q = encode (cs.takeWhile p) := by
  induction cs with
  | nil => rfl
  | cons c cs ih =>
      cases hp : p c with
      | true =>
          rw [List.takeWhile_cons, hp, if_pos rfl, encode_cons, encode_cons,
            List.takeWhile_append_of_pos ((h c).1 hp), ih]
      | false =>
          obtain ⟨b, bs, same, hq⟩ := (h c).2 hp
          rw [List.takeWhile_cons, hp, encode_cons, same, List.cons_append, List.takeWhile_cons, hq]
          rfl

/-- A look at one byte is a look at one character, if nothing is seen at the end. -/
theorem head_encode (h : Reads p q) (nul : q 0 = false) (cs : List Char) :
    q ((encode cs)[0]?.getD 0) = (cs.head?.map p).getD false := by
  cases cs with
  | nil => exact nul
  | cons c cs =>
      cases hp : p c with
      | true =>
          obtain ⟨b, bs, same, -⟩ := first_byte c
          have hq := (h c).1 hp b (by rw [same]; exact List.mem_cons_self)
          simp [encode_cons, same, hp, hq]
      | false =>
          obtain ⟨b, bs, same, hq⟩ := (h c).2 hp
          simp [encode_cons, same, hp, hq]

/-- A class of ASCII characters, and the class of their bytes. -/
theorem ascii (small : ∀ b, q b = true → b.toNat < 128)
    (same : ∀ c, isAscii c = true → p c = q c.toUInt8) (wide : ∀ c, p c = true → isAscii c = true) :
    Reads p q := by
  intro c
  refine ⟨fun hp b hb => ?_, fun hp => ?_⟩
  · have hc := wide c hp
    rw [encode_ascii hc, List.mem_singleton] at hb
    rw [hb, ← same c hc, hp]
  · cases hc : isAscii c with
    | true => exact ⟨_, [], encode_ascii hc, by rw [← same c hc, hp]⟩
    | false =>
        obtain ⟨b, bs, first, large, -⟩ := encode_wide hc
        refine ⟨b, bs, first, Bool.eq_false_iff.2 fun hq => ?_⟩
        exact absurd (small b hq) (by omega)

theorem eq {a : Char} (ha : isAscii a = true) : Reads (· == a) (· == a.toUInt8) := by
  refine ascii (fun b hb => ?_) (fun c hc => ?_) fun c hc => ?_
  · rw [beq_iff_eq.1 hb, toNat_toUInt8 ha]
    exact of_decide_eq_true ha
  · rw [Bool.eq_iff_iff, beq_iff_eq, beq_iff_eq, toUInt8_inj hc ha]
  · rw [beq_iff_eq.1 hc, ha]

theorem ne {a : Char} (ha : isAscii a = true) : Reads (· != a) (· != a.toUInt8) := by
  intro c
  show ((c != a) = true → ∀ b ∈ String.utf8EncodeChar c, (b != a.toUInt8) = true) ∧
    ((c != a) = false → ∃ b bs, String.utf8EncodeChar c = b :: bs ∧ (b != a.toUInt8) = false)
  simp only [bne_iff_ne, bne_eq_false_iff_eq]
  refine ⟨fun hne b hb => ?_, ?_⟩
  · rintro rfl
    exact hne ((mem_utf8EncodeChar ha).1 hb)
  · rintro rfl
    exact ⟨_, [], encode_ascii ha, rfl⟩

end Reads

/-! ## Line feeds

The encoding has as many line feeds as the text has. -/

theorem count_encode {a : Char} (ha : isAscii a = true) (cs : List Char) :
    (encode cs).count a.toUInt8 = cs.count a := by
  induction cs with
  | nil => rfl
  | cons c cs ih =>
      rw [encode_cons, List.count_append, ih, List.count_cons, Nat.add_comm]
      congr 1
      by_cases h : c = a
      · subst h
        rw [encode_ascii ha]
        simp
      · rw [List.count_eq_zero.2 (mt (mem_utf8EncodeChar ha).1 h)]
        simp [h]

end Lox.Scan
