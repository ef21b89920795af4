import Bom.Text.Blank

/-!
# Keywords in any case

A keyword is a fixed text of ASCII letters. Some columns hold keywords in any case and with blanks
around them, so a text is compared by its upper-case form.

The full upper-case mapping turns a few letters beyond ASCII into ASCII letters: the dotless i, the
long s, the sharp s and the ligatures. All others are left with a letter beyond ASCII, and such a
text equals no keyword however that letter is mapped.
-/

namespace Bom.Text

/-- The upper-case form of one character, exact whenever that form is made of ASCII letters. -/
def upper : Char → List Char
  | 'ß' => ['S', 'S']
  | 'ı' => ['I']
  | 'ſ' => ['S']
  | 'ﬀ' => ['F', 'F']
  | 'ﬁ' => ['F', 'I']
  | 'ﬂ' => ['F', 'L']
  | 'ﬃ' => ['F', 'F', 'I']
  | 'ﬄ' => ['F', 'F', 'L']
  | 'ﬅ' => ['S', 'T']
  | 'ﬆ' => ['S', 'T']
  | c => [c.toUpper]

/-- The text that is compared with keywords in capitals: trimmed, then in upper case. -/
def capitals (s : String) : String :=
  String.ofList ((trimChars s.toList).flatMap upper)

/-- The text that is compared with words in small letters: trimmed, then in lower case. The words
that it is compared with have no k, the one letter that a character beyond ASCII is lowered to. -/
def smallLetters (s : String) : String :=
  String.ofList ((trimChars s.toList).map Char.toLower)

end Bom.Text
