import Mathlib.Data.List.Nodup
import Bom.Proofs.Json.Texts
import Bom.Proofs.Tables.Numbers

/-!
# Settings and their snapshots

A setting that is set is found under its key, and all other settings are found as before
(`Tables.setting?_setSetting`). The settings that a snapshot names are those that can be found, by
key (`Tables.mem_globalSettings`), and two states with the same settings have the same snapshot
(`Tables.globalSettings_eq_iff`).

Restoring a snapshot sets what it names and takes nothing away. So after later changes a key has the
text of the snapshot again if it had one then, and otherwise keeps what the changes gave it. The
snapshot comes back just when the changes were to keys that it names, and the settings of the engine
do when the changes were to no other keys of the engine (`Database.restore_snapshot`).
-/

namespace Bom

/-! ## Rows under keys -/

variable {α κ : Type} [DecidableEq κ]

namespace Table

/-- Where a row with the key is there, it makes way for the new one. -/
theorem rows_set_of_any {t : Table α} {key : α → κ} {row : α}
    (h : t.rows.any (key · = key row) = true) :
    (t.set key row).rows = t.rows.map fun r => if key r = key row then row else r := by
  unfold set
  rw [if_pos h]
  simp only [rows, List.map_map, Function.comp_def]

/-- Where no row with the key is there, the new one is added. -/
theorem set_of_not_any {t : Table α} {key : α → κ} {row : α}
    (h : t.rows.any (key · = key row) = false) : t.set key row = t.add row := by
  unfold set
  rw [h, if_neg Bool.false_ne_true]

/-- A row that is set is found by its key, and all others are found as before. -/
theorem find?_rows_set (t : Table α) (key : α → κ) (row : α) (k : κ) :
    (t.set key row).rows.find? (key · = k) =
      if key row = k then some row else t.rows.find? (key · = k) := by
  cases hany : t.rows.any (key · = key row) with
  | true =>
    have hkey (r : α) : key (if key r = key row then row else r) = key r := by
      split
      next h => exact h.symm
      next => rfl
    rw [rows_set_of_any hany, List.find?_map]
    simp only [Function.comp_def, hkey]
    cases hfound : t.rows.find? (key · = k) with
    | none =>
      have hk : key row ≠ k := by
        rintro rfl
        obtain ⟨r, hr, hkey⟩ := List.any_eq_true.1 hany
        exact List.find?_eq_none.1 hfound r hr hkey
      rw [if_neg hk]
      rfl
    | some r =>
      have hrk : key r = k := by simpa using List.find?_some hfound
      rw [Option.map_some, hrk]
      by_cases hk : key row = k
      · rw [if_pos hk, if_pos hk.symm]
      · rw [if_neg hk, if_neg (Ne.symm hk)]
  | false =>
    rw [set_of_not_any hany, t.find?_rows_add row fun hrow => ?_]
    · simp only [decide_eq_true_eq]
    · have hk : key row = k := of_decide_eq_true hrow
      rw [← hk]
      exact List.find?_eq_none.2 fun r hr => List.any_eq_false.1 hany r hr

/-- As no two rows had one key, no two rows have one after a row has been set. -/
theorem nodup_set {t : Table α} {key : α → κ} (h : (t.rows.map key).Nodup) (row : α) :
    ((t.set key row).rows.map key).Nodup := by
  cases hany : t.rows.any (key · = key row) with
  | true =>
    have hkeys : (t.set key row).rows.map key = t.rows.map key := by
      rw [rows_set_of_any hany, List.map_map]
      refine List.map_congr_left fun r _ => ?_
      dsimp only [Function.comp_apply]
      split
      next h => exact h.symm
      next => rfl
    rwa [hkeys]
  | false =>
    have hnew : key row ∉ t.rows.map key := by
      intro hmem
      obtain ⟨r, hr, hkey⟩ := List.mem_map.1 hmem
      exact List.any_eq_false.1 hany r hr (decide_eq_true hkey)
    rw [set_of_not_any hany, ((t.rows_add_perm row).map key).nodup_iff]
    exact List.nodup_cons.2 ⟨hnew, h⟩

end Table

/-! ## Settings -/

namespace Tables

/-- No two settings of one scope have one key. -/
def SettingsDiffer (t : Tables) : Prop := (t.settings.rows.map fun r => (r.scope, r.key)).Nodup

instance (t : Tables) : Decidable t.SettingsDiffer := inferInstanceAs (Decidable (List.Nodup _))

theorem SettingsDiffer.setSetting {t : Tables} (h : t.SettingsDiffer) (key value : String) :
    (t.setSetting key value).SettingsDiffer :=
  Table.nodup_set h _

theorem SettingsDiffer.setSettings {t : Tables} (h : t.SettingsDiffer)
    (values : List (String × String)) : (t.setSettings values).SettingsDiffer := by
  induction values generalizing t with
  | nil => exact h
  | cons c values ih => exact ih (h.setSetting c.1 c.2)

/-- Setting texts leaves all other tables alone. -/
theorem setSettings_eq (t : Tables) (values : List (String × String)) :
    t.setSettings values = { t with settings := (t.setSettings values).settings } := by
  induction values generalizing t with
  | nil => rfl
  | cons c values ih => exact ih (t.setSetting c.1 c.2)

/-- A setting is found by its scope and its key. -/
theorem setting?_eq (t : Tables) (key : String) :
    t.setting? key =
      (t.settings.rows.find? fun r => (r.scope, r.key) = (globalScope, key)).map (·.value) := by
  unfold setting?
  simp only [Prod.mk.injEq, Bool.decide_and]

/-- What is set is found under its key, and all else is found as before. -/
theorem setting?_setSetting (t : Tables) (key value other : String) :
    (t.setSetting key value).setting? other =
      if key = other then some value else t.setting? other := by
  have hfind := t.settings.find?_rows_set (fun r : SettingRow => (r.scope, r.key))
    ⟨globalScope, key, value⟩ (globalScope, other)
  rw [setting?_eq, setting?_eq]
  change (List.find? _ (t.settings.set _ _).rows).map _ = _
  rw [hfind]
  simp only [Prod.mk.injEq, true_and]
  split <;> rfl

/-- The text that is set last under a key, if any is. -/
def lastText? (values : List (String × String)) (key : String) : Option String :=
  (values.reverse.find? (·.1 = key)).map Prod.snd

theorem lastText?_cons (key value : String) (values : List (String × String)) (other : String) :
    lastText? ((key, value) :: values) other =
      (lastText? values other).or (if key = other then some value else none) := by
  unfold lastText?
  rw [List.reverse_cons, List.find?_append, Option.map_or, List.find?_singleton]
  simp only [decide_eq_true_eq]
  split <;> rfl

/-- After any number of calls the last text that was set under a key is found there. -/
theorem setting?_setSettings (t : Tables) (values : List (String × String)) (key : String) :
    (t.setSettings values).setting? key = (lastText? values key).or (t.setting? key) := by
  induction values generalizing t with
  | nil => rfl
  | cons c values ih =>
    obtain ⟨k, v⟩ := c
    change ((t.setSetting k v).setSettings values).setting? key = _
    rw [ih, lastText?_cons, setting?_setSetting, Option.or_assoc]
    split <;> rfl

theorem lastText?_eq_none {values : List (String × String)} {key : String} :
    lastText? values key = none ↔ ∀ c ∈ values, c.1 ≠ key := by
  unfold lastText?
  simp

/-- Where no key is named twice, each pair is the last one of its key. -/
theorem lastText?_eq_some {values : List (String × String)} (h : (values.map Prod.fst).Nodup)
    {key value : String} : lastText? values key = some value ↔ (key, value) ∈ values := by
  have hreverse : (values.reverse.map Prod.fst).Nodup := by
    rw [List.map_reverse]
    exact List.nodup_reverse.2 h
  unfold lastText?
  simp only [Option.map_eq_some_iff, find?_key_eq_some hreverse, List.mem_reverse]
  constructor
  · rintro ⟨c, ⟨hc, rfl⟩, rfl⟩
    exact hc
  · exact fun hc => ⟨(key, value), ⟨hc, rfl⟩, rfl⟩

/-! ## Snapshots -/

/-- A snapshot names the settings that are found. -/
theorem mem_globalSettings {t : Tables} (h : t.SettingsDiffer) {key value : String} :
    (key, value) ∈ t.globalSettings ↔ t.setting? key = some value := by
  rw [setting?_eq]
  simp only [Option.map_eq_some_iff, find?_key_eq_some h]
  unfold globalSettings
  simp only [List.mem_map, (sortWith_perm _ _).mem_iff, List.mem_filter, decide_eq_true_eq]
  constructor
  · rintro ⟨r, ⟨hr, hscope⟩, hpair⟩
    obtain ⟨rfl, rfl⟩ := Prod.mk.inj hpair
    exact ⟨r, ⟨hr, by rw [hscope]⟩, rfl⟩
  · rintro ⟨r, ⟨hr, hkey⟩, rfl⟩
    obtain ⟨hscope, rfl⟩ := Prod.mk.inj hkey
    exact ⟨r, ⟨hr, hscope⟩, rfl⟩

/-- A snapshot names each key once. -/
theorem nodup_globalSettings {t : Tables} (h : t.SettingsDiffer) :
    (t.globalSettings.map Prod.fst).Nodup := by
  have hfound := (List.filter_sublist (p := fun r => decide (r.scope = globalScope))).map
    (fun r : SettingRow => (r.scope, r.key)) |>.nodup h
  have hpairs : (t.settings.rows.filter (·.scope = globalScope)).map (fun r => (r.scope, r.key)) =
      ((t.settings.rows.filter (·.scope = globalScope)).map (·.key)).map (Prod.mk globalScope) := by
    rw [List.map_map]
    refine List.map_congr_left fun r hr => ?_
    rw [of_decide_eq_true (List.mem_filter.1 hr).2]
    rfl
  rw [hpairs] at hfound
  unfold globalSettings
  rw [List.map_map]
  exact ((sortWith_perm _ _).map _).nodup_iff.2 (.of_map _ hfound)

/-- A snapshot names the keys in their order. -/
theorem globalSettings_sorted (t : Tables) : t.globalSettings.Pairwise fun a b => a.1 ≤ b.1 := by
  have htotal (a b : SettingRow) :
      decide (a.key ≤ b.key) = true ∨ decide (b.key ≤ a.key) = true := by
    simpa using String.le_total a.key b.key
  have htrans (a b c : SettingRow) : decide (a.key ≤ b.key) = true →
      decide (b.key ≤ c.key) = true → decide (a.key ≤ c.key) = true := by
    simpa using String.le_trans
  refine List.pairwise_map.2 ((sortWith_pairwise htotal htrans
    (List.pairwise_of_forall fun _ _ => trivial)).imp fun h => of_decide_eq_true h.1)

/-- Two states have the same snapshot just when they have the same settings. -/
theorem globalSettings_eq_iff {t t' : Tables} (h : t.SettingsDiffer) (h' : t'.SettingsDiffer) :
    t.globalSettings = t'.globalSettings ↔ ∀ key, t.setting? key = t'.setting? key := by
  constructor
  · intro heq key
    refine Option.ext fun value => ?_
    rw [← mem_globalSettings h, ← mem_globalSettings h', heq]
  · intro heq
    have hperm : t.globalSettings.Perm t'.globalSettings := by
      refine (List.perm_ext_iff_of_nodup (.of_map _ (nodup_globalSettings h))
        (.of_map _ (nodup_globalSettings h'))).2 fun (key, value) => ?_
      rw [mem_globalSettings h, mem_globalSettings h', heq]
    refine hperm.eq_of_pairwise (fun a b ha hb hab hba => ?_) t.globalSettings_sorted
      t'.globalSettings_sorted
    exact List.inj_on_of_nodup_map (nodup_globalSettings h) ha (hperm.mem_iff.2 hb)
      (String.le_antisymm hab hba)

end Tables

/-! ## Restoring -/

/-- The keys of the settings of the engine. -/
def engineKeys : List String := [bomTypeKey, facilityKey, leadTimeKey, maxDepthKey, excludesWipKey]

/-- The engine reads no other keys. -/
theorem loadSettings_congr {ε : Type} {value value' : String → Option String}
    (h : ∀ key ∈ engineKeys, value key = value' key) :
    (loadSettings value : Noted ε Settings) = loadSettings value' := by
  simp only [engineKeys, List.forall_mem_cons] at h
  obtain ⟨hbomType, hfacility, hleadTime, hmaxDepth, hexcludesWip, -⟩ := h
  unfold loadSettings
  rw [hbomType, hfacility, hleadTime, hmaxDepth, hexcludesWip]

namespace Database

/-- The database after settings have been set one after the other. -/
def change (db : Database) (changes : List (String × String)) : Database :=
  changes.foldl (fun db c => (db.setSetting c.1 c.2).1) db

theorem change_eq (t : Tables) (changes : List (String × String)) :
    change ⟨some t⟩ changes = ⟨some (t.setSettings changes)⟩ := by
  induction changes generalizing t with
  | nil => rfl
  | cons c changes ih => exact ih (t.setSetting c.1 c.2)

/-- To restore an object of texts is to set them in the order in which it names them. -/
theorem restore_of_isObjectOfTexts (t : Tables) {text : String} {values : List (String × String)}
    (h : IsObjectOfTexts text values) : restore ⟨some t⟩ text =
      (⟨some (t.setSettings values)⟩, .ok (values.map Prod.fst).eraseDups.length) := by
  unfold restore
  rw [readTexts?_eq_some_iff.2 h]
  cases values <;> rfl

theorem restore_renderTexts (t : Tables) (values : List (String × String)) :
    restore ⟨some t⟩ (renderTexts values) =
      (⟨some (t.setSettings values)⟩, .ok (values.map Prod.fst).eraseDups.length) :=
  restore_of_isObjectOfTexts t (isObjectOfTexts_renderTexts values)

/-- A snapshot tells what the settings are. -/
theorem snapshot_eq_ok {t : Tables} {values : List (String × String)} :
    snapshot ⟨some t⟩ = .ok (renderTexts values) ↔ t.globalSettings = values := by
  change (.ok (renderTexts t.globalSettings) : Except StoreError String) = _ ↔ _
  rw [Except.ok.injEq]
  exact renderTexts_injective.eq_iff

theorem settings_eq (t : Tables) : settings ⟨some t⟩ = loadSettings t.setting? := rfl

/-- Restoring a snapshot after changes sets every key that it names back and takes no key away.
Hence a key has its text of the time of the snapshot, or, if it had none, the last one that was set.
The same snapshot is taken again just when every change was to a key that the first one names, and
the engine has the same settings again if every change to a key of the engine was. -/
theorem restore_snapshot {t : Tables} (h : t.SettingsDiffer) (changes : List (String × String)) :
    ∃ text restored count, snapshot ⟨some t⟩ = .ok text ∧
      (change ⟨some t⟩ changes).restore text = (⟨some restored⟩, .ok count) ∧
      (∀ key, restored.setting? key = (t.setting? key).or (Tables.lastText? changes key)) ∧
      (snapshot ⟨some restored⟩ = .ok text ↔
        ∀ c ∈ changes, (t.setting? c.1).isSome = true) ∧
      ((∀ c ∈ changes, c.1 ∈ engineKeys → (t.setting? c.1).isSome = true) →
        settings ⟨some restored⟩ = settings ⟨some t⟩) := by
  let restored := (t.setSettings changes).setSettings t.globalSettings
  have hrestored : restored.SettingsDiffer := (h.setSettings changes).setSettings _
  have hnamed (key : String) : Tables.lastText? t.globalSettings key = t.setting? key := by
    refine Option.ext fun value => ?_
    rw [Tables.lastText?_eq_some (Tables.nodup_globalSettings h), Tables.mem_globalSettings h]
  have hsetting (key : String) :
      restored.setting? key = (t.setting? key).or (Tables.lastText? changes key) := by
    rw [Tables.setting?_setSettings, Tables.setting?_setSettings, hnamed]
    cases t.setting? key <;> simp
  have hsame (key : String) : restored.setting? key = t.setting? key ↔
      ∀ c ∈ changes, c.1 = key → (t.setting? key).isSome = true := by
    rw [hsetting]
    cases hkey : t.setting? key with
    | none => simp [Tables.lastText?_eq_none]
    | some value => simp
  refine ⟨renderTexts t.globalSettings, restored, (t.globalSettings.map Prod.fst).eraseDups.length,
    rfl, ?_, hsetting, ?_, fun hengine => ?_⟩
  · rw [change_eq, restore_renderTexts]
  · calc snapshot ⟨some restored⟩ = .ok (renderTexts t.globalSettings)
        ↔ restored.globalSettings = t.globalSettings := snapshot_eq_ok
      _ ↔ ∀ key, restored.setting? key = t.setting? key :=
          Tables.globalSettings_eq_iff hrestored h
      _ ↔ ∀ c ∈ changes, (t.setting? c.1).isSome = true := by
          simp only [hsame]
          exact ⟨fun hall c hc => hall c.1 c hc rfl, fun hall _ c hc heq => heq ▸ hall c hc⟩
  · rw [settings_eq, settings_eq]
    refine loadSettings_congr fun key hkey => (hsame key).2 fun c hc heq => ?_
    rw [← heq] at hkey ⊢
    exact hengine c hc hkey

/-- A depth that a snapshot names is back after another one has been set, and so is the snapshot. -/
theorem depth_restored :
    let t : Tables := Tables.empty.setSetting maxDepthKey "10"
    ∃ text restored count, snapshot ⟨some t⟩ = .ok text ∧
      (change ⟨some t⟩ [(maxDepthKey, "20")]).restore text = (⟨some restored⟩, .ok count) ∧
      restored.setting? maxDepthKey = some "10" ∧ snapshot ⟨some restored⟩ = .ok text ∧
      settings ⟨some restored⟩ = settings ⟨some t⟩ := by
  intro t
  have hdiffer : t.SettingsDiffer := by decide
  have hnamed : ∀ c ∈ [(maxDepthKey, "20")], (t.setting? c.1).isSome = true := by decide
  obtain ⟨text, restored, count, hsnapshot, hrestore, hsetting, hagain, hengine⟩ :=
    restore_snapshot hdiffer [(maxDepthKey, "20")]
  refine ⟨text, restored, count, hsnapshot, hrestore, ?_, hagain.2 hnamed,
    hengine fun c hc _ => hnamed c hc⟩
  rw [hsetting]
  decide

/-- The snapshot of a state without settings names no depth. A depth that is set after it is still
there when it has been restored: the engine goes down three levels and not 64, and the snapshot is
another one. -/
theorem depth_remains :
    let db : Database := ⟨some .empty⟩
    let changed := change db [(maxDepthKey, "3")]
    let restored := (changed.restore "\x7b\x7d").1
    snapshot db = .ok "\x7b\x7d" ∧
      (settings db).outcome.map Settings.maxDepth = .ok 64 ∧
      (changed.restore "\x7b\x7d").2 = .ok 0 ∧
      (settings restored).outcome.map Settings.maxDepth = .ok 3 ∧
      snapshot restored = .ok "\x7b\"bom/max_depth\":\"3\"\x7d" := by
  decide +kernel

end Database

end Bom
