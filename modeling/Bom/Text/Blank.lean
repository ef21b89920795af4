/-!
# White space at the ends of a text

Identifiers, keywords and numbers are read after the blanks around them are cut off. Blank is the
Unicode property White_Space, which holds of twenty-five characters.

* `isBlank`: the property, as a table of ranges.
* `trim`: a text without the blanks at its two ends.
* `isBlankText`: nothing but blanks, which is what `trim` turns into the empty text.
-/

namespace Bom.Text

/-- The ranges of the property White_Space, in ascending order. -/
def blankRanges : List (Nat × Nat) :=
  [(0x09, 0x0D), (0x20, 0x20), (0x85, 0x85), (0xA0, 0xA0), (0x1680, 0x1680), (0x2000, 0x200A),
   (0x2028, 0x2029), (0x202F, 0x202F), (0x205F, 0x205F), (0x3000, 0x3000)]

/-- Holds of the characters with the property White_Space. -/
def isBlank (c : Char) : Bool :=
  blankRanges.any fun (lo, hi) => lo ≤ c.toNat && c.toNat ≤ hi

/-- Drops the blanks at both ends. -/
def trimChars (cs : List Char) : List Char :=
  ((cs.dropWhile isBlank).reverse.dropWhile isBlank).reverse

/-- The text without the blanks at its two ends. -/
def trim (s : String) : String :=
  String.ofList (trimChars s.toList)

/-- Holds of the empty text and of texts that are made of blanks only. -/
def isBlankText (s : String) : Bool :=
  s.toList.all isBlank

/-- An absent text counts as blank. -/
def isBlankOption (s : Option String) : Bool :=
  s.all isBlankText

end Bom.Text
