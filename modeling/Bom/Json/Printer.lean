import Bom.Json.Basic

/-!
# Writing structured texts

* `quoted`: a text between quotes. Quotes, backslashes and control characters are escaped, and no
  others.
* `renderTexts`: an object whose members are texts, without blanks.
-/

namespace Bom

namespace JsonPrinter

/-- The hexadecimal digit of a number below sixteen. -/
def hexDigit (n : Nat) : Char := Nat.digitChar n

/-- A character inside a text. -/
def escaped (c : Char) : List Char :=
  if c = '"' then ['\\', '"']
  else if c = '\\' then ['\\', '\\']
  else if c = '\x08' then ['\\', 'b']
  else if c = '\x0c' then ['\\', 'f']
  else if c = '\n' then ['\\', 'n']
  else if c = '\r' then ['\\', 'r']
  else if c = '\t' then ['\\', 't']
  else if c.toNat < 0x20 then
    ['\\', 'u', '0', '0', hexDigit (c.toNat / 16), hexDigit (c.toNat % 16)]
  else [c]

/-- A text between quotes. -/
def quoted (s : String) : List Char :=
  '"' :: (s.toList.flatMap escaped ++ ['"'])

/-- A member of an object. -/
def member (m : String × String) : List Char :=
  quoted m.1 ++ ':' :: quoted m.2

/-- Members with commas between them. -/
def members : List (String × String) → List Char
  | [] => []
  | [m] => member m
  | m :: rest => member m ++ ',' :: members rest

end JsonPrinter

/-- An object whose members are texts, in the given order. -/
def renderTexts (ms : List (String × String)) : String :=
  String.ofList ('\x7b' :: (JsonPrinter.members ms ++ ['\x7d']))

end Bom
