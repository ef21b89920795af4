import Bom.Error
import Bom.Tables.Rows

/-!
# Faults of the database

What a database refuses, and how a store reports it. The report of a change that is refused goes by
the words of its text: one that speaks of something unique is reported as a key that is taken, one
that speaks of a foreign key as a reference to a missing row, and any other as a failed query. A
row without columns and a column that cannot be read are always failed queries.

* `TableFault`: the causes.
* `refusal`: the report of a text of the database.
* `TableFault.toStoreError`: the report of a cause.
* `Database.read`, `Database.write`: work on tables that have to be there.
-/

namespace Bom

/-- What a database refuses. -/
inductive TableFault where
  | noTable (table : String)
  | noColumn (table column : String)
  /-- a row is given by none of its columns -/
  | noColumns (table : String)
  /-- a column that has to be filled is not -/
  | notNull (table column : String)
  /-- a key of the given columns is taken -/
  | notUnique (table : String) (columns : List String)
  /-- a row refers to one that does not exist -/
  | noReference
  /-- the number of a row is no whole number -/
  | mismatch
  /-- all numbers of rows are used up -/
  | full
  /-- a column does not hold the kind of value that is read from it -/
  | wrongKind (kind : String) (index : Nat) (column : String)
  /-- a column holds a text that is no instant -/
  | noInstant (index : Nat) (text : String)
  deriving DecidableEq, Repr

/-- The wording of a text that is no instant. -/
def noInstantText (text : String) : String := s!"无法解析日期: {text}"

/-- The report of a refusal with the given text. -/
def refusal (text : String) : StoreError :=
  if Text.occursIn "UNIQUE".toList text.toList then .unique text
  else if Text.occursIn "FOREIGN KEY".toList text.toList then .foreignKey text
  else .query text

namespace TableFault

/-- The statement that puts a row without columns into a table, in two parts. It is at fault where
its second part begins, since a column has to stand there. -/
def emptyInsertion (table : String) : String × String :=
  (s!"INSERT INTO {table} (", ") VALUES ()")

/-- The report of a fault. -/
def toStoreError : TableFault → StoreError
  | noTable table => refusal s!"no such table: {table}"
  | noColumn table column => refusal s!"table {table} has no column named {column}"
  | noColumns table =>
    let (start, rest) := emptyInsertion table
    let place := start.utf8ByteSize
    .query s!"near \")\": syntax error in {start}{rest} at offset {place}"
  | notNull table column => refusal s!"NOT NULL constraint failed: {table}.{column}"
  | notUnique table columns =>
    let names := columns.map fun c => table ++ "." ++ c
    refusal ("UNIQUE constraint failed: " ++ ", ".intercalate names)
  | noReference => refusal "FOREIGN KEY constraint failed"
  | mismatch => refusal "datatype mismatch"
  | full => refusal "database or disk is full"
  | wrongKind kind index column =>
    .query s!"Invalid column type {kind} at index: {index}, name: {column}"
  | noInstant index text => .fieldValue s!"column#{index}" (noInstantText text)

end TableFault

namespace Database

/-- Reads the tables, among which the named one has to be. -/
def read {α : Type} (db : Database) (table : String) (f : Tables → Except TableFault α) :
    Except StoreError α :=
  match db.tables with
  | some t => (f t).mapError TableFault.toStoreError
  | none => .error (TableFault.noTable table).toStoreError

/-- Changes the tables, among which the named one has to be. A fault changes nothing. -/
def write {α : Type} (db : Database) (table : String)
    (f : Tables → Except TableFault (Tables × α)) : Database × Except StoreError α :=
  match db.read table f with
  | .ok (t, a) => (⟨some t⟩, .ok a)
  | .error e => (db, .error e)

end Database

/-- Reads a whole number from the column with the given index. -/
def Cell.readInteger (index : Nat) (column : String) : Cell → Except TableFault Int
  | .integer i => .ok i
  | c => .error (.wrongKind c.kindName index column)

/-- Reads a double from the column with the given index. -/
def Cell.readReal (index : Nat) (column : String) : Cell → Except TableFault Float
  | .integer i => .ok (Float.ofInt i)
  | .real x => .ok x
  | c => .error (.wrongKind c.kindName index column)

/-- Reads a double, or nothing, from the column with the given index. -/
def Cell.readReal? (index : Nat) (column : String) : Cell → Except TableFault (Option Float)
  | .null => .ok none
  | c => (c.readReal index column).map some

/-- Reads a text that has to be there from the column with the given index. -/
def readText (index : Nat) (column : String) : Option String → Except TableFault String
  | some s => .ok s
  | none => .error (.wrongKind Cell.null.kindName index column)

end Bom
