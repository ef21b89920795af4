import Bom.Json.Reader

/-!
# Reading records

A record is written as an object with a member per field, in any order, or as a list of its fields
in their order. An object may leave out fields that may be absent, and may have members that are no
fields; a list has to be complete. A field stands at most once.

* `JsonFields`: the values found for the fields of a record.
* `Json.fields?`: reads them.
* `JsonFields.required`, `optional`, `defaulted`: one field.
* `Json.keyword?`: one of several words.
-/

namespace Bom

namespace Json

/-- A text. -/
def text? : Json → Option String
  | text s => s
  | _ => none

/-- A truth value. -/
def bool? : Json → Option Bool
  | bool b => some b
  | _ => none

/-- A number as a double. -/
def float? : Json → Option Float
  | number n => n.float?
  | _ => none

/-- A whole number between two bounds, both included. -/
def integerBetween? (low high : Int) : Json → Option Int
  | number n => n.integer?.filter fun i => low ≤ i && i ≤ high
  | _ => none

/-- A whole number of a signed word of 64 bits. -/
def integer? (j : Json) : Option Int :=
  j.integerBetween? minWord maxWord

/-- A whole number of an unsigned word of 64 bits. -/
def count? (j : Json) : Option Nat :=
  (j.integerBetween? 0 maxCount).map Int.toNat

/-- One of several words, spelt exactly: as a text, or as the one name of an object that holds null.
-/
def keyword? {α : Type} (ofWord? : String → Option α) : Json → Option α
  | text (some s) => ofWord? s
  | object [(some s, null)] => ofWord? s
  | _ => none

/-- A value, or null for none. -/
def nullable? {α : Type} (read? : Json → Option α) : Json → Option (Option α)
  | null => some none
  | j => (read? j).map some

end Json

/-- The values found for the fields of a record. -/
structure JsonFields where
  /-- the record is written as a list -/
  positional : Bool
  /-- the value of each field, by the names of the fields -/
  values : List (String × Option Json)

/-- The value of the only member with the given name, nothing if two have it. -/
def soleMember (members : List (String × Json)) (name : String) : Option (Option Json) :=
  match members.filter (·.1 = name) with
  | [] => some none
  | [(_, j)] => some (some j)
  | _ => none

/-- The values of the fields with the given names. -/
def Json.fields? (names : List String) : Json → Option JsonFields
  | .object members => do
    let members ← members.mapM fun (name, j) => name.map (·, j)
    let values ← names.mapM fun name => (soleMember members name).map (name, ·)
    pure ⟨false, values⟩
  | .list items =>
    if items.length ≤ names.length then
      some ⟨true, names.zip (items.map some ++ List.replicate (names.length - items.length) none)⟩
    else none
  | _ => none

namespace JsonFields

variable {α : Type}

/-- The value found for a field. -/
def value? (f : JsonFields) (name : String) : Option Json :=
  (f.values.find? (·.1 = name)).bind Prod.snd

/-- A field that has to be there. -/
def required (f : JsonFields) (name : String) (read? : Json → Option α) : Option α :=
  (f.value? name).bind read?

/-- A field that has a value when it is left out, even of a list. -/
def defaulted (f : JsonFields) (name : String) (value : α) (read? : Json → Option α) : Option α :=
  match f.value? name with
  | some j => read? j
  | none => some value

/-- A field that may be null, and may be left out of an object. -/
def optional (f : JsonFields) (name : String) (read? : Json → Option α) : Option (Option α) :=
  match f.value? name with
  | some j => j.nullable? read?
  | none => if f.positional then none else some none

end JsonFields

end Bom
