import Mathlib.Data.List.DropRight
import Bom.Proofs.Tables.Restore

/-!
# Settings are usable whatever the table holds

Each field of the settings is read from the text under one key. The three ways in which the texts
are cleaned come to the same: a text is read, what cannot be used counts as not read, and what is
not read has the standard value (`Settings.ofTexts`, `outcome_loadSettings`). So a field can have
two kinds of values only, those that a reader lets through and the standard one, and all of them
are usable (`Settings.isUsable_ofTexts`).

A change of the table that does not touch the key of a field leaves the field as it is, be it a
setting that is set, a snapshot that is restored or a row of any scope (`setting?_apply`).
`Database.settings_usable` says both for every table and for every run of changes.
-/

namespace Bom

/-! ## Trimmed texts -/

namespace Text

/-- Holds of a text that neither begins nor ends with a blank. -/
def IsTrimmed (s : String) : Prop :=
  (∀ c ∈ s.toList.head?, isBlank c = false) ∧ ∀ c ∈ s.toList.getLast?, isBlank c = false

/-- A text that has been trimmed has no blank at its ends. -/
theorem isTrimmed_trim (s : String) : IsTrimmed (trim s) := by
  let front := s.toList.dropWhile isBlank
  have htrim : (trim s).toList = front.rdropWhile isBlank := String.toList_ofList
  refine ⟨fun c hc => ?_, fun c hc => ?_⟩
  · rw [htrim] at hc
    obtain ⟨rest, hrest⟩ := List.rdropWhile_prefix isBlank front
    have hfront : front.head? = some c := by
      rw [← hrest, List.head?_append, hc, Option.some_or]
    have hfirst := List.head?_dropWhile_not isBlank s.toList
    rw [hfront] at hfirst
    exact hfirst
  · rw [htrim] at hc
    obtain ⟨hne, rfl⟩ := List.mem_getLast?_eq_getLast hc
    exact Bool.eq_false_iff.2 (List.rdropWhile_last_not isBlank front hne)

end Text

/-! ## One reading for each field -/

/-- Reads a name. Nothing but blanks is no name. -/
def readName? (s : String) : Option String :=
  (some (Text.trim s)).filter (· ≠ "")

/-- Reads a lead time that can be used. -/
def readLeadTime? (s : String) : Option Float :=
  (readFloat? (Text.trim s)).filter isLeadTime

/-- Reads a greatest depth that can be used. -/
def readMaxDepth? (s : String) : Option Nat :=
  (readCount? (Text.trim s)).filter (· ≠ 0)

/-- The settings that the texts under the keys stand for. -/
def Settings.ofTexts (value : String → Option String) : Settings where
  bomType := ((value bomTypeKey).bind readName?).getD standard.bomType
  facility := ((value facilityKey).bind readName?).or standard.facility
  leadTime := ((value leadTimeKey).bind readLeadTime?).getD standard.leadTime
  maxDepth := ((value maxDepthKey).bind readMaxDepth?).getD standard.maxDepth
  excludesWip := ((value excludesWipKey).bind readFlag?).getD standard.excludesWip

theorem nonBlank_eq (raw : Option String) : nonBlank raw = raw.bind readName? := by
  cases raw <;> rfl

theorem outcome_readOr {ε α : Type} (read? : String → Option α) (standard : α)
    (raw : Option String) :
    (readOr read? standard raw : Noted ε α).outcome = .ok ((raw.bind read?).getD standard) := by
  cases raw with
  | none => rfl
  | some s =>
    unfold readOr
    rw [Option.bind_some]
    dsimp only
    cases read? s <;> rfl

theorem outcome_usableOr {ε α : Type} (isUsable : α → Bool) (notice : Notice) (standard a : α) :
    (usableOr isUsable notice standard a : Noted ε α).outcome =
      .ok (((some a).filter isUsable).getD standard) := by
  unfold usableOr
  rw [Option.filter_some]
  split <;> rfl

/-- What is read but cannot be used counts as not read. -/
theorem getD_filter_getD {α : Type} (read? : String → Option α) (isUsable : α → Bool)
    (standard : α) (raw : Option String) :
    ((some ((raw.bind read?).getD standard)).filter isUsable).getD standard =
      (raw.bind fun s => (read? s).filter isUsable).getD standard := by
  have hstandard : ((some standard).filter isUsable).getD standard = standard := by
    rw [Option.filter_some]
    split <;> rfl
  cases raw with
  | none => exact hstandard
  | some s =>
    rw [Option.bind_some, Option.bind_some]
    cases read? s with
    | none => exact hstandard
    | some a => rfl

/-- Loading the settings succeeds, whatever texts there are. -/
theorem outcome_loadSettings {ε : Type} (value : String → Option String) :
    (loadSettings value : Noted ε Settings).outcome = .ok (.ofTexts value) := by
  unfold loadSettings
  simp only [Noted.outcome_bind, outcome_readOr, outcome_usableOr, Noted.outcome_pure, Except.bind,
    getD_filter_getD, nonBlank_eq]
  rfl

/-! ## What can be used -/

/-- Holds of a text that can be an id: it is not empty and has no blanks around it. -/
structure IsName (s : String) : Prop where
  ne : s ≠ ""
  trimmed : Text.IsTrimmed s

/-- Holds of settings that can be worked with. -/
structure Settings.IsUsable (s : Settings) : Prop where
  bomType : IsName s.bomType
  facility : ∀ f ∈ s.facility, IsName f
  leadTime_finite : s.leadTime.isFinite = true
  leadTime_not_negative : ¬ s.leadTime < 0.0
  maxDepth_pos : 1 ≤ s.maxDepth

theorem isName_of_readName? {s name : String} (h : readName? s = some name) : IsName name := by
  obtain ⟨htrim, hne⟩ := Option.filter_eq_some_iff.1 h
  obtain rfl := Option.some.inj htrim
  exact ⟨of_decide_eq_true hne, Text.isTrimmed_trim s⟩

theorem isLeadTime_eq_true {days : Float} :
    isLeadTime days = true ↔ days.isFinite = true ∧ ¬ days < 0.0 := by
  simp [isLeadTime]

/-- What holds of all that is read and of the standard value holds of a field. -/
theorem forall_getD {α : Type} {P : α → Prop} {read? : String → Option α} {standard : α}
    (hread : ∀ s a, read? s = some a → P a) (hstandard : P standard) (raw : Option String) :
    P ((raw.bind read?).getD standard) := by
  cases h : raw.bind read? with
  | none => exact hstandard
  | some a =>
    obtain ⟨s, -, hs⟩ := Option.bind_eq_some_iff.1 h
    exact hread s a hs

/-- Whatever the texts are, the settings can be worked with. -/
theorem Settings.isUsable_ofTexts (value : String → Option String) : (ofTexts value).IsUsable := by
  have hleadTime : isLeadTime (ofTexts value).leadTime = true :=
    forall_getD (P := (isLeadTime · = true)) (fun s days h => (Option.filter_eq_some_iff.1 h).2)
      (by decide +kernel) (value leadTimeKey)
  refine {
    bomType := forall_getD (fun s name => isName_of_readName?)
      ⟨by decide, Text.isTrimmed_trim defaultBomType⟩ (value bomTypeKey)
    facility := fun f hf => ?_
    leadTime_finite := (isLeadTime_eq_true.1 hleadTime).1
    leadTime_not_negative := (isLeadTime_eq_true.1 hleadTime).2
    maxDepth_pos := forall_getD (P := (1 ≤ ·)) (fun s depth h => Nat.one_le_iff_ne_zero.2
      (of_decide_eq_true (Option.filter_eq_some_iff.1 h).2)) (by decide) (value maxDepthKey) }
  -- there is no standard facility, so one that is there has been read
  rw [ofTexts, show standard.facility = none from rfl, Option.or_none] at hf
  obtain ⟨s, -, hs⟩ := Option.bind_eq_some_iff.1 hf
  exact isName_of_readName? hs

/-! ## Each field has a key of its own -/

/-- The fields of the settings. -/
inductive SettingField where
  | bomType
  | facility
  | leadTime
  | maxDepth
  | excludesWip

namespace SettingField

/-- The key of a field. -/
def key : SettingField → String
  | bomType => bomTypeKey
  | facility => facilityKey
  | leadTime => leadTimeKey
  | maxDepth => maxDepthKey
  | excludesWip => excludesWipKey

/-- Holds of settings that have the same value in a field. -/
def Agree (s s' : Settings) : SettingField → Prop
  | bomType => s.bomType = s'.bomType
  | facility => s.facility = s'.facility
  | leadTime => s.leadTime = s'.leadTime
  | maxDepth => s.maxDepth = s'.maxDepth
  | excludesWip => s.excludesWip = s'.excludesWip

/-- A field is read from the text under its key and from nothing else. -/
theorem agree_ofTexts {value value' : String → Option String} (f : SettingField)
    (h : value f.key = value' f.key) : f.Agree (.ofTexts value) (.ofTexts value') := by
  cases f <;> unfold Agree Settings.ofTexts <;> dsimp only [key] at h ⊢ <;> rw [h]

end SettingField

/-! ## Changes of the table -/

/-- A change of the table of the settings. -/
inductive SettingChange where
  /-- a setting of the global scope is set -/
  | set (key value : String)
  /-- a snapshot, or any other text, is restored -/
  | restore (text : String)
  /-- a row of any scope is written -/
  | put (row : SettingRow)

namespace SettingChange

/-- Makes the change. -/
def apply (db : Database) : SettingChange → Database
  | set key value => (db.setSetting key value).1
  | restore text => (db.restore text).1
  | put row => ⟨db.tables.map fun t =>
      { t with settings := t.settings.set (fun r => (r.scope, r.key)) row }⟩

/-- Holds of a change that writes a text under the key in the global scope. -/
def Touches (key : String) : SettingChange → Prop
  | set k _ => k = key
  | restore text => ∃ values, IsObjectOfTexts text values ∧ ∃ c ∈ values, c.1 = key
  | put row => row.scope = globalScope ∧ row.key = key

/-- A change leaves alone what is found under the keys that it does not touch. -/
theorem setting?_apply (t : Tables) {c : SettingChange} : ∃ t' : Tables,
    c.apply ⟨some t⟩ = ⟨some t'⟩ ∧
      ∀ key, ¬ c.Touches key → t'.setting? key = t.setting? key := by
  cases c with
  | set key value =>
    refine ⟨t.setSetting key value, rfl, fun other hother => ?_⟩
    rw [Tables.setting?_setSetting, if_neg (c := key = other) hother]
  | restore text =>
    by_cases h : ∃ values, IsObjectOfTexts text values
    · obtain ⟨values, hvalues⟩ := h
      refine ⟨t.setSettings values, ?_, fun key hkey => ?_⟩
      · exact congrArg Prod.fst (Database.restore_of_isObjectOfTexts t hvalues)
      · have hlast : Tables.lastText? values key = none :=
          Tables.lastText?_eq_none.2 fun c hc heq => hkey ⟨values, hvalues, c, hc, heq⟩
        rw [Tables.setting?_setSettings, hlast, Option.none_or]
    · obtain ⟨e, he⟩ := (Database.restore_eq_error_iff t text).2 h
      exact ⟨t, congrArg Prod.fst he, fun _ _ => rfl⟩
  | put row =>
    refine ⟨_, rfl, fun key hkey => ?_⟩
    rw [Tables.setting?_eq, Tables.setting?_eq]
    dsimp only
    rw [Table.find?_rows_set, if_neg fun heq => hkey (Prod.mk.inj heq)]

/-- A run of changes leaves alone what is found under the keys that none of them touches. -/
theorem setting?_run (t : Tables) (changes : List SettingChange) : ∃ t' : Tables,
    changes.foldl apply ⟨some t⟩ = ⟨some t'⟩ ∧
      ∀ key, (∀ c ∈ changes, ¬ c.Touches key) → t'.setting? key = t.setting? key := by
  induction changes generalizing t with
  | nil => exact ⟨t, rfl, fun _ _ => rfl⟩
  | cons c changes ih =>
    obtain ⟨t₁, happly, hstep⟩ := setting?_apply t (c := c)
    obtain ⟨t', hrun, hrest⟩ := ih t₁
    refine ⟨t', ?_, fun key hkey => ?_⟩
    · rw [List.foldl_cons, happly, hrun]
    · obtain ⟨hc, hchanges⟩ := List.forall_mem_cons.1 hkey
      rw [hrest key hchanges, hstep key hc]

end SettingChange

namespace Database

theorem outcome_settings (t : Tables) :
    (settings ⟨some t⟩).outcome = .ok (.ofTexts t.setting?) := by
  rw [settings_eq, outcome_loadSettings]

/-- Whatever the table of the settings holds, the settings are read and can be worked with. Each
field is what the text under its key can be read as, or else the standard value. It is the same in
any other table with the same text under its key, and no run of changes that leaves this key alone
changes the field, whatever else it writes. -/
theorem settings_usable (t : Tables) : ∃ s, (settings ⟨some t⟩).outcome = .ok s ∧
    s = .ofTexts t.setting? ∧ s.IsUsable ∧
    (∀ t' s', (settings ⟨some t'⟩).outcome = .ok s' →
      ∀ f : SettingField, t.setting? f.key = t'.setting? f.key → f.Agree s s') ∧
    ∀ changes : List SettingChange, ∃ s',
      (settings (changes.foldl SettingChange.apply ⟨some t⟩)).outcome = .ok s' ∧ s'.IsUsable ∧
      ∀ f : SettingField, (∀ c ∈ changes, ¬ c.Touches f.key) → f.Agree s s' := by
  refine ⟨.ofTexts t.setting?, outcome_settings t, rfl, Settings.isUsable_ofTexts _,
    fun t' s' hs' f hf => ?_, fun changes => ?_⟩
  · rw [outcome_settings] at hs'
    cases hs'
    exact f.agree_ofTexts hf
  · obtain ⟨t', hrun, hkept⟩ := SettingChange.setting?_run t changes
    rw [hrun]
    exact ⟨.ofTexts t'.setting?, outcome_settings t', Settings.isUsable_ofTexts _, fun f hf =>
      f.agree_ofTexts (hkept f.key hf).symm⟩

end Database

/-- Names with blanks around them, a lead time and a depth that can be read and cannot be used, and
a word that says neither yes nor no. -/
def Tables.spoiled : Tables :=
  empty.setSettings [(bomTypeKey, " kit\t"), (facilityKey, " \n"), (leadTimeKey, "-inf"),
    (maxDepthKey, "0"), (excludesWipKey, "perhaps")]

/-- The name is trimmed and all else is standard. After a depth has been restored, and a lead time
has been written in another scope, only the depth is another one. -/
theorem Database.spoiled_usable :
    let db : Database := ⟨some .spoiled⟩
    let changes : List SettingChange := [.restore "\x7b \"bom/max_depth\" : \" 7 \" \x7d",
      .put ⟨"office", leadTimeKey, "5"⟩, .set "bom/depth" "9"]
    (settings db).outcome = .ok ⟨"kit", none, 0.0, 64, false⟩ ∧
      ∃ s', (settings (changes.foldl SettingChange.apply db)).outcome = .ok s' ∧ s'.IsUsable ∧
        s'.bomType = "kit" ∧ s'.leadTime = 0.0 ∧ s'.maxDepth = 7 := by
  intro db changes
  have hstandard : (settings db).outcome = .ok ⟨"kit", none, 0.0, 64, false⟩ := by decide +kernel
  obtain ⟨s, hs, -, -, -, hchanged⟩ := settings_usable .spoiled
  obtain rfl := Except.ok.inj (hs.symm.trans hstandard)
  obtain ⟨s', hs', husable, hkept⟩ := hchanged changes
  have hread :
      readTexts? "\x7b \"bom/max_depth\" : \" 7 \" \x7d" = some [(maxDepthKey, " 7 ")] := by
    decide +kernel
  have huntouched {key : String} (hdepth : key ≠ maxDepthKey) (hother : key ≠ "bom/depth") :
      ∀ c ∈ changes, ¬ c.Touches key := by
    refine List.forall_mem_cons.2 ⟨?_, List.forall_mem_cons.2 ⟨?_, List.forall_mem_singleton.2 ?_⟩⟩
    · rintro ⟨values, hvalues, c, hc, heq⟩
      rw [← readTexts?_eq_some_iff, hread] at hvalues
      cases hvalues
      obtain rfl := List.mem_singleton.1 hc
      exact hdepth heq.symm
    · exact fun h => absurd h.1 (by decide)
    · exact fun h => hother h.symm
  refine ⟨hstandard, s', hs', husable, (hkept .bomType (huntouched (by decide) (by decide))).symm,
    (hkept .leadTime (huntouched (by decide) (by decide))).symm, ?_⟩
  have hdepth : (settings (changes.foldl SettingChange.apply db)).outcome.map Settings.maxDepth =
      .ok 7 := by decide +kernel
  rw [hs'] at hdepth
  exact Except.ok.inj hdepth

end Bom
