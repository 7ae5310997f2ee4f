/-!
# Blank lines

The characters with the Unicode property `White_Space`.  A line of nothing else is blank.  This is
more than the scanner takes for trivia, whose blanks are four characters of ASCII.
-/

namespace Lox

/-- The ranges of code points with the property `White_Space`, in order. -/
def blankRanges : List (Nat × Nat) :=
  [(0x09, 0x0D), (0x20, 0x20), (0x85, 0x85), (0xA0, 0xA0), (0x1680, 0x1680), (0x2000, 0x200A),
    (0x2028, 0x2029), (0x202F, 0x202F), (0x205F, 0x205F), (0x3000, 0x3000)]

/-- Whether a character is white space. -/
def isBlankChar (c : Char) : Bool :=
  blankRanges.any fun (low, high) => low ≤ c.toNat && c.toNat ≤ high

/-- Whether a line has no other character than white space. -/
def isBlankLine (line : String) : Bool :=
  line.toList.all isBlankChar

/-- Twenty-five characters are white space. -/
example : (blankRanges.map fun (low, high) => high + 1 - low).sum = 25 := by decide

end Lox
