import Bom.Json.Basic

/-!
# Reading structured texts

The reader takes a whole text and returns what it holds, or nothing if the text breaks a rule:
blanks are the space, the tab and the two line ends; numbers have no plus and no needless zero in
front; a text has no control character, and its escapes are the usual ones.

* `readJson?`: a whole text.
* `JsonReader.text`: the rest of a text after its opening quote.
* `JsonReader.value`: a value at the beginning of a list of characters.
-/

namespace Bom

open Text

namespace JsonReader

/-- The blanks between the parts of a structured text. -/
def isSpace (c : Char) : Bool :=
  c = ' ' || c = '\t' || c = '\n' || c = '\r'

/-- Drops the blanks in front. -/
def skip (cs : List Char) : List Char := cs.dropWhile isSpace

/-- The value of a hexadecimal digit. -/
def hexDigit? (c : Char) : Option Nat :=
  if '0' ≤ c ∧ c ≤ '9' then some (c.toNat - '0'.toNat)
  else if 'a' ≤ c ∧ c ≤ 'f' then some (c.toNat - 'a'.toNat + 10)
  else if 'A' ≤ c ∧ c ≤ 'F' then some (c.toNat - 'A'.toNat + 10)
  else none

/-- The unit of sixteen bits that four hexadecimal digits name. -/
def unit? (a b c d : Char) : Option Nat := do
  let a ← hexDigit? a
  let b ← hexDigit? b
  let c ← hexDigit? c
  let d ← hexDigit? d
  pure (((a * 16 + b) * 16 + c) * 16 + d)

/-- The first half of a surrogate pair. -/
def isHighHalf (u : Nat) : Bool := 0xD800 ≤ u && u ≤ 0xDBFF

/-- The second half of a surrogate pair. -/
def isLowHalf (u : Nat) : Bool := 0xDC00 ≤ u && u ≤ 0xDFFF

/-- The character that a surrogate pair stands for. -/
def joinHalves (high low : Nat) : Char :=
  Char.ofNat (0x10000 + (high - 0xD800) * 0x400 + (low - 0xDC00))

/-- The character after a backslash that stands for one character. -/
def shortEscape? : Char → Option Char
  | '"' => some '"'
  | '\\' => some '\\'
  | '/' => some '/'
  | 'b' => some '\x08'
  | 'f' => some '\x0c'
  | 'n' => some '\n'
  | 'r' => some '\r'
  | 't' => some '\t'
  | _ => none

/-- Puts a character in front of a text that has been read, if that has characters. -/
def push (c : Char) : Option (List Char) × List Char → Option (List Char) × List Char
  | (read, rest) => (read.map (c :: ·), rest)

/-- Takes the characters from a text that has been read. -/
def spoil : Option (List Char) × List Char → Option (List Char) × List Char
  | (_, rest) => (none, rest)

/-- The characters of a text after its opening quote, and what follows its closing quote. The
characters are missing when half of a surrogate pair stands alone. -/
def text : List Char → Option (Option (List Char) × List Char)
  | '"' :: rest => some (some [], rest)
  | '\\' :: 'u' :: a :: b :: c :: d :: '\\' :: 'u' :: e :: f :: g :: h :: rest =>
    match unit? a b c d with
    | none => none
    | some first =>
      if isHighHalf first then
        match unit? e f g h with
        | none => none
        | some second =>
          if isLowHalf second then (text rest).map (push (joinHalves first second))
          else (text ('\\' :: 'u' :: e :: f :: g :: h :: rest)).map spoil
      else if isLowHalf first then
        (text ('\\' :: 'u' :: e :: f :: g :: h :: rest)).map spoil
      else (text ('\\' :: 'u' :: e :: f :: g :: h :: rest)).map (push (Char.ofNat first))
  | '\\' :: 'u' :: a :: b :: c :: d :: rest =>
    match unit? a b c d with
    | none => none
    | some first =>
      if isHighHalf first || isLowHalf first then (text rest).map spoil
      else (text rest).map (push (Char.ofNat first))
  | '\\' :: e :: rest =>
    match shortEscape? e with
    | some c => (text rest).map (push c)
    | none => none
  | c :: rest => if c.toNat < 0x20 ∨ c = '\\' then none else (text rest).map (push c)
  | [] => none

/-- The digits before the point: a zero alone, or digits that do not begin with zero. -/
def wholeDigits (cs : List Char) : Option (List Char × List Char) :=
  match spanDigits cs with
  | ([], _) => none
  | (['0'], rest) => some (['0'], rest)
  | ('0' :: _, _) => none
  | (ds, rest) => some (ds, rest)

/-- The digits after the point, if there is one: at least one digit. -/
def fractionDigits : List Char → Option (Option (List Char) × List Char)
  | '.' :: rest =>
    match spanDigits rest with
    | ([], _) => none
    | (ds, rest) => some (some ds, rest)
  | rest => some (none, rest)

/-- The exponent, if there is one. -/
def exponent : List Char → Option (Option Int × List Char)
  | c :: rest =>
    if c = 'e' ∨ c = 'E' then (readExponent ofDigits rest).map fun (e, rest) => (some e, rest)
    else some (none, c :: rest)
  | [] => some (none, [])

/-- A number. -/
def number (cs : List Char) : Option (JsonNumber × List Char) := do
  let (negative, cs) : Bool × List Char :=
    match cs with
    | '-' :: rest => (true, rest)
    | rest => (false, rest)
  let (whole, cs) ← wholeDigits cs
  let (fraction, cs) ← fractionDigits cs
  let (power, cs) ← exponent cs
  let digits := fraction.getD []
  pure (⟨⟨negative, ofDigits (whole ++ digits), power.getD 0 - (digits.length : Int)⟩,
    fraction.isNone && power.isNone⟩, cs)

/-- The rest after a given word. -/
def word (w : List Char) (cs : List Char) : Option (List Char) :=
  if w.isPrefixOf cs then some (cs.drop w.length) else none

mutual

/-- A value. The first argument bounds the number of steps. -/
def value : Nat → List Char → Option (Json × List Char)
  | 0, _ => none
  | n + 1, cs =>
    match skip cs with
    | '"' :: rest => (text rest).map fun (read, rest) => (.text (read.map String.ofList), rest)
    | '[' :: rest =>
      match skip rest with
      | ']' :: rest => some (.list [], rest)
      | rest => (items n rest).map fun (read, rest) => (.list read, rest)
    | '\x7b' :: rest =>
      match skip rest with
      | '\x7d' :: rest => some (.object [], rest)
      | rest => (members n rest).map fun (read, rest) => (.object read, rest)
    | 'n' :: rest => (word ['u', 'l', 'l'] rest).map fun rest => (.null, rest)
    | 't' :: rest => (word ['r', 'u', 'e'] rest).map fun rest => (.bool true, rest)
    | 'f' :: rest => (word ['a', 'l', 's', 'e'] rest).map fun rest => (.bool false, rest)
    | rest => (number rest).map fun (read, rest) => (.number read, rest)

/-- The items of a list up to its closing bracket. -/
def items : Nat → List Char → Option (List Json × List Char)
  | 0, _ => none
  | n + 1, cs => do
    let (first, cs) ← value n cs
    match skip cs with
    | ']' :: rest => pure ([first], rest)
    | ',' :: rest => do
      let (others, rest) ← items n rest
      pure (first :: others, rest)
    | _ => none

/-- The members of an object up to its closing brace. -/
def members : Nat → List Char → Option (List (Option String × Json) × List Char)
  | 0, _ => none
  | n + 1, cs =>
    match skip cs with
    | '"' :: rest => do
      let (name, rest) ← text rest
      let rest ← expect ':' (skip rest)
      let (first, rest) ← value n rest
      let entry := (name.map String.ofList, first)
      match skip rest with
      | '\x7d' :: rest => pure ([entry], rest)
      | ',' :: rest => do
        let (others, rest) ← members n rest
        pure (entry :: others, rest)
      | _ => none
    | _ => none

end

end JsonReader

/-- What a whole text holds. Blanks may stand around it, and nothing else. -/
def readJson? (s : String) : Option Json :=
  let cs := s.toList
  match JsonReader.value (cs.length + 1) cs with
  | some (v, rest) => if (JsonReader.skip rest).isEmpty then some v else none
  | none => none

end Bom
