import Bom.Json.Printer
import Bom.Json.Reader
import Bom.Notice
import Bom.Settings
import Bom.Sorting
import Bom.Tables.Fault
import Bom.Text.Keyword

/-!
# Settings in a table

Settings are texts under a key, in a scope; the engine reads those of the global scope. A setting
that is missing has its standard value, and so has one that cannot be used, which is worth a notice.

A snapshot is the text of all global settings, and restoring it sets each of them again.

* `loadSettings`: the settings of the engine.
* `Database.snapshot`, `Database.restore`: all global settings as a text, and back.
-/

namespace Bom

/-- The scope of the settings that the engine reads. -/
def globalScope : String := "global"

/-- The key of the type of bill when a request names none. -/
def bomTypeKey : String := "bom/default_bom_type"

/-- The key of the facility when neither a request nor a product names one. -/
def facilityKey : String := "bom/default_facility_id"

/-- The key of the lead time in days when no facility states one. -/
def leadTimeKey : String := "bom/default_lead_time_days"

/-- The key of the greatest number of levels. -/
def maxDepthKey : String := "bom/max_depth"

/-- The key of whether net requirements pass over work in process. -/
def excludesWipKey : String := "bom/exclude_wip"

/-- The truth value that a word stands for, in any case and with blanks around it. -/
def readFlag? (s : String) : Option Bool :=
  let word := Text.smallLetters s
  if word ∈ ["1", "true", "yes", "y", "on"] then some true
  else if word ∈ ["0", "false", "no", "n", "off"] then some false
  else none

/-- A setting that is a text: trimmed, and missing when it is blank. -/
def nonBlank (raw : Option String) : Option String :=
  (raw.map Text.trim).filter (· ≠ "")

/-- A setting that has to be read. What cannot be read has the standard value and is worth a notice.
-/
def readOr {ε α : Type} (read? : String → Option α) (standard : α) : Option String → Noted ε α
  | none => pure standard
  | some raw =>
    match read? raw with
    | some a => pure a
    | none => ⟨[.settingMalformed], .ok standard⟩

/-- A value that has to be usable. Another one has the standard value and is worth a notice. -/
def usableOr {ε α : Type} (isUsable : α → Bool) (notice : Notice) (standard a : α) : Noted ε α :=
  if isUsable a then pure a else ⟨[notice], .ok standard⟩

/-- A lead time is finite and not negative. -/
def isLeadTime (days : Float) : Bool := days.isFinite && !(days < 0.0)

/-- The settings of the engine, from the texts under the keys. -/
def loadSettings {ε : Type} (value : String → Option String) : Noted ε Settings := do
  let standard := Settings.standard
  let bomType := (nonBlank (value bomTypeKey)).getD standard.bomType
  let facility := (nonBlank (value facilityKey)).or standard.facility
  let leadTime ← readOr (fun s => readFloat? (Text.trim s)) standard.leadTime (value leadTimeKey)
  let leadTime ← usableOr isLeadTime .leadTimeInvalid standard.leadTime leadTime
  let maxDepth ← readOr (fun s => readCount? (Text.trim s)) standard.maxDepth (value maxDepthKey)
  let maxDepth ← usableOr (· ≠ 0) .maxDepthZero standard.maxDepth maxDepth
  let excludesWip ← readOr readFlag? standard.excludesWip (value excludesWipKey)
  pure ⟨bomType, facility, leadTime, maxDepth, excludesWip⟩

namespace Tables

/-- The text under a key of the global scope. -/
def setting? (t : Tables) (key : String) : Option String :=
  (t.settings.rows.find? fun r => r.scope = globalScope && r.key = key).map (·.value)

/-- Sets a text under a key of the global scope. -/
def setSetting (t : Tables) (key value : String) : Tables :=
  { t with settings := t.settings.set (fun r => (r.scope, r.key)) ⟨globalScope, key, value⟩ }

/-- The keys and texts of the global scope, by key. -/
def globalSettings (t : Tables) : List (String × String) :=
  let found := t.settings.rows.filter (·.scope = globalScope)
  (sortWith (fun a b => a.key ≤ b.key) found).map fun r => (r.key, r.value)

/-- Sets several texts of the global scope, one after the other. -/
def setSettings (t : Tables) (values : List (String × String)) : Tables :=
  values.foldl (fun t (key, value) => t.setSetting key value) t

end Tables

/-- The members of an object of texts, nothing for a text that is no such object. -/
def readTexts? (s : String) : Option (List (String × String)) :=
  match readJson? s with
  | some (.object members) => members.mapM fun (name, j) => do
    let name ← name
    match j with
    | .text (some value) => some (name, value)
    | _ => none
  | _ => none

namespace Database

/-- The text under a key of the global scope. -/
def setting (db : Database) (key : String) : Except StoreError (Option String) :=
  db.read "config_kv" fun t => .ok (t.setting? key)

/-- Sets a text under a key of the global scope. -/
def setSetting (db : Database) (key value : String) : Database × Except StoreError Unit :=
  db.write "config_kv" fun t => .ok (t.setSetting key value, ())

/-- The settings of the engine. -/
def settings (db : Database) : Noted StoreError Settings := do
  let t ← Noted.lift (db.read "config_kv" .ok)
  loadSettings t.setting?

/-- All global settings as a text, by key. -/
def snapshot (db : Database) : Except StoreError String :=
  db.read "config_kv" fun t => .ok (renderTexts t.globalSettings)

/-- Sets the global settings that a snapshot names, and counts them. Of a key that is named twice
the last text counts. Nothing to set needs no tables. -/
def restore (db : Database) (text : String) : Database × Except StoreError Nat :=
  match readTexts? text with
  | none => (db, .error (.other "not an object of texts"))
  | some [] => (db, .ok 0)
  | some values =>
    db.write "config_kv" fun t =>
      .ok (t.setSettings values, (values.map Prod.fst).eraseDups.length)

end Database

end Bom
