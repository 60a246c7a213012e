namespace Eligibility

/-- The code points with the Unicode property `White_Space`. -/
def blankCodes : List Nat :=
  [0x09, 0x0a, 0x0b, 0x0c, 0x0d, 0x20, 0x85, 0xa0, 0x1680, 0x2000, 0x2001, 0x2002, 0x2003, 0x2004,
    0x2005, 0x2006, 0x2007, 0x2008, 0x2009, 0x200a, 0x2028, 0x2029, 0x202f, 0x205f, 0x3000]

/-- Blank characters separate the tokens of a rule and may surround a quoted number. -/
def isBlank (c : Char) : Bool :=
  blankCodes.contains c.toNat

def skipBlanks (input : List Char) : List Char :=
  input.dropWhile isBlank

/-- The text without the blanks at its two ends. -/
def trimBlanks (input : List Char) : List Char :=
  (skipBlanks (skipBlanks input).reverse).reverse

theorem skipBlanks_skipBlanks (input : List Char) :
    skipBlanks (skipBlanks input) = skipBlanks input := by
  induction input with
  | nil => rfl
  | cons c rest ih =>
    by_cases h : isBlank c
    · simp only [skipBlanks, List.dropWhile_cons_of_pos h]
      exact ih
    · simp only [skipBlanks, List.dropWhile_cons_of_neg h]

end Eligibility
