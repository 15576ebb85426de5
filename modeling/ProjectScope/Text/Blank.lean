/-!
# Blanks

The characters with the Unicode property `White_Space`, and trimming of text by them.
Everything that reads what a person typed (versions, specifiers, ignore patterns) trims by this
one property, so a no-break space at the end of a line counts as a blank as well.
-/

namespace ProjectScope.Text

/-- The characters with the property `White_Space`. -/
def isBlank (c : Char) : Bool :=
  let n := c.toNat
  (9 ≤ n && n ≤ 13) || n == 0x20 || n == 0x85 || n == 0xA0 || n == 0x1680 ||
    (0x2000 ≤ n && n ≤ 0x200A) || n == 0x2028 || n == 0x2029 || n == 0x202F ||
    n == 0x205F || n == 0x3000

/-- Drop the elements at the end that satisfy `p`. -/
def dropRightWhile {α : Type} (p : α → Bool) (s : List α) : List α :=
  (s.reverse.dropWhile p).reverse

/-- Drop the blanks at the end. -/
def trimRight (s : List Char) : List Char := dropRightWhile isBlank s

/-- Drop the blanks at both ends. -/
def trim (s : List Char) : List Char := trimRight (s.dropWhile isBlank)

/-- The ASCII letters in lower case; every other character stays. -/
def lower (s : List Char) : List Char := s.map Char.toLower

@[simp] theorem trim_nil : trim [] = [] := rfl

@[simp] theorem lower_nil : lower [] = [] := rfl

@[simp] theorem length_lower (s : List Char) : (lower s).length = s.length := by
  simp [lower]

end ProjectScope.Text
