import Bom.Proofs.Tables.Settings

/-!
# Restoring a snapshot into another state

A snapshot that is restored sets the keys that it names and leaves everything else, so what is there
afterwards can be told key by key (`Tables.TakesOver`). The keys of a snapshot differ, so the order
in which they are set has no part in that (`Tables.rows_perm_of_setting?`), and setting them again
changes nothing, not even the numbers of the rows (`Tables.setSettings_eq_self`).

A text that is no object of texts is refused before anything is set, and no other text is
(`Database.restore_eq_error_iff`). `Database.restore_elsewhere` puts the two together.
-/

namespace Bom

/-! ## Rows that stay -/

namespace Table

variable {α κ : Type} [DecidableEq κ]

/-- A row that is set leaves all rows alone that can be told from the rows of its key. -/
theorem filter_rows_set (t : Table α) {key : α → κ} {row : α} {p : α → Bool}
    (hp : ∀ r, key r = key row → p r = false) :
    (t.set key row).rows.filter p = t.rows.filter p := by
  cases hany : t.rows.any (key · = key row) with
  | true =>
    rw [rows_set_of_any hany]
    induction t.rows with
    | nil => rfl
    | cons r rows ih =>
      rw [List.map_cons, List.filter_cons, List.filter_cons, ih]
      by_cases hr : key r = key row
      · rw [if_pos hr, hp row rfl, hp r hr]
        rfl
      · rw [if_neg hr]
  | false =>
    obtain ⟨before, after, hrows, hmore⟩ := rows_insertAt_split row t.hasNumber_nextNumber
    have hadd : (t.add row).rows = before ++ row :: after := hmore
    rw [set_of_not_any hany, hadd, hrows, List.filter_append, List.filter_append,
      List.filter_cons_of_neg (by rw [hp row rfl]; exact Bool.false_ne_true)]

/-- Where no two rows have one key, setting a row that is there changes nothing. -/
theorem set_eq_self {t : Table α} {key : α → κ} {row : α} (hnodup : (t.rows.map key).Nodup)
    (hrow : row ∈ t.rows) : t.set key row = t := by
  have hany : t.rows.any (key · = key row) = true :=
    List.any_eq_true.2 ⟨row, hrow, decide_eq_true rfl⟩
  have hentries : t.entries.map (fun e => (e.1, if key e.2 = key row then row else e.2)) =
      t.entries := by
    refine (List.map_congr_left fun e he => ?_).trans (List.map_id _)
    split
    next hkey =>
      have hsame : e.2 = row :=
        List.inj_on_of_nodup_map hnodup (List.mem_map_of_mem he) hrow hkey
      rw [← hsame, id]
    next => rfl
  unfold set
  rw [if_pos hany]
  cases t
  simp only [hentries]

end Table

/-- A list in which nothing is twice has nothing to be erased. -/
theorem eraseDups_of_nodup {α : Type} [DecidableEq α] {as : List α} (h : as.Nodup) :
    as.eraseDups = as := by
  induction as with
  | nil => rfl
  | cons a as ih =>
    obtain ⟨hnot, hnodup⟩ := List.nodup_cons.1 h
    have hfilter : as.filter (fun b => !b == a) = as := by
      refine List.filter_eq_self.2 fun b hb => ?_
      have hne : b ≠ a := fun heq => hnot (heq ▸ hb)
      simpa using hne
    rw [List.eraseDups_cons, hfilter, ih hnodup]

namespace Tables

/-! ## Settings in other scopes -/

/-- Setting a text leaves the rows of other scopes alone. -/
theorem filter_scopes_setSetting (t : Tables) (key value : String) :
    (t.setSetting key value).settings.rows.filter (·.scope ≠ globalScope) =
      t.settings.rows.filter (·.scope ≠ globalScope) := by
  refine t.settings.filter_rows_set fun r hr => ?_
  obtain ⟨hscope, -⟩ := Prod.mk.inj hr
  simp [hscope]

theorem filter_scopes_setSettings (t : Tables) (values : List (String × String)) :
    (t.setSettings values).settings.rows.filter (·.scope ≠ globalScope) =
      t.settings.rows.filter (·.scope ≠ globalScope) := by
  induction values generalizing t with
  | nil => rfl
  | cons c values ih => exact (ih (t.setSetting c.1 c.2)).trans (t.filter_scopes_setSetting c.1 c.2)

/-! ## Settings that are there -/

/-- Where the settings differ, a text of the global scope is found just when its row is there. -/
theorem setting?_eq_some {t : Tables} (h : t.SettingsDiffer) {key value : String} :
    t.setting? key = some value ↔ ⟨globalScope, key, value⟩ ∈ t.settings.rows := by
  rw [setting?_eq]
  simp only [Option.map_eq_some_iff, find?_key_eq_some h]
  simp only [Prod.mk.injEq]
  constructor
  · rintro ⟨r, ⟨hr, hscope, rfl⟩, rfl⟩
    rwa [← hscope]
  · exact fun hr => ⟨_, ⟨hr, rfl, rfl⟩, rfl⟩

/-- Setting texts that are there already changes nothing. -/
theorem setSettings_eq_self {t : Tables} (h : t.SettingsDiffer) {values : List (String × String)}
    (hvalues : ∀ c ∈ values, t.setting? c.1 = some c.2) : t.setSettings values = t := by
  induction values with
  | nil => rfl
  | cons c values ih =>
    obtain ⟨hc, hvalues⟩ := List.forall_mem_cons.1 hvalues
    have hset : t.setSetting c.1 c.2 = t := by
      unfold setSetting
      rw [Table.set_eq_self h ((setting?_eq_some h).1 hc)]
    change (t.setSetting c.1 c.2).setSettings values = t
    rw [hset, ih hvalues]

/-- Two states have the same rows, up to their order, if they have the same settings and the same
rows in other scopes. -/
theorem rows_perm_of_setting? {t t' : Tables} (h : t.SettingsDiffer) (h' : t'.SettingsDiffer)
    (hsetting : ∀ key, t.setting? key = t'.setting? key)
    (hscopes : t.settings.rows.filter (·.scope ≠ globalScope) =
      t'.settings.rows.filter (·.scope ≠ globalScope)) :
    t.settings.rows.Perm t'.settings.rows := by
  refine (List.perm_ext_iff_of_nodup (.of_map _ h) (.of_map _ h')).2 fun r => ?_
  obtain ⟨scope, key, value⟩ := r
  by_cases hscope : scope = globalScope
  · subst hscope
    rw [← setting?_eq_some h, ← setting?_eq_some h', hsetting]
  · have hmem (u : Tables) : ⟨scope, key, value⟩ ∈ u.settings.rows ↔
        ⟨scope, key, value⟩ ∈ u.settings.rows.filter (·.scope ≠ globalScope) := by
      simp [hscope]
    rw [hmem t, hmem t', hscopes]

/-! ## Taking over the settings of another state -/

/-- How many settings the global scope has. -/
def globalCount (t : Tables) : Nat := (t.settings.rows.filter (·.scope = globalScope)).length

/-- A snapshot names as many settings as there are. -/
theorem length_globalSettings (t : Tables) : t.globalSettings.length = t.globalCount := by
  unfold globalSettings globalCount
  rw [List.length_map, (sortWith_perm _ _).length_eq]

/-- The state `u` is the state `t` with all settings of the state `s`. -/
structure TakesOver (s t u : Tables) : Prop where
  /-- each setting of `s` has its text in `s` -/
  named : ∀ key value, s.setting? key = some value → u.setting? key = some value
  /-- each other setting is as in `t` -/
  others : ∀ key, s.setting? key = none → u.setting? key = t.setting? key
  /-- the rows of all other scopes are those of `t` -/
  scopes : u.settings.rows.filter (·.scope ≠ globalScope) =
    t.settings.rows.filter (·.scope ≠ globalScope)
  /-- all other tables are those of `t` -/
  tables : u = { t with settings := u.settings }

/-- In whatever order the settings of a state are set, another state takes them over. -/
theorem takesOver_setSettings {s : Tables} (hs : s.SettingsDiffer) (t : Tables)
    {values : List (String × String)} (hvalues : values.Perm s.globalSettings) :
    s.TakesOver t (t.setSettings values) := by
  have hnodup : (values.map Prod.fst).Nodup :=
    (hvalues.map Prod.fst).nodup_iff.2 (nodup_globalSettings hs)
  have hlast (key : String) : lastText? values key = s.setting? key := by
    refine Option.ext fun value => ?_
    rw [lastText?_eq_some hnodup, hvalues.mem_iff, mem_globalSettings hs]
  have hsetting (key : String) :
      (t.setSettings values).setting? key = (s.setting? key).or (t.setting? key) := by
    rw [setting?_setSettings, hlast]
  exact {
    named := fun key value h => by rw [hsetting, h, Option.some_or]
    others := fun key h => by rw [hsetting, h, Option.none_or]
    scopes := t.filter_scopes_setSettings values
    tables := t.setSettings_eq values }

namespace TakesOver

variable {s t u u' : Tables}

/-- What is taken over is there. -/
theorem found (h : s.TakesOver t u) (hs : s.SettingsDiffer) {c : String × String}
    (hc : c ∈ s.globalSettings) : u.setting? c.1 = some c.2 :=
  h.named _ _ ((mem_globalSettings hs).1 hc)

/-- There is one way only to take over settings, up to the order of the rows. -/
theorem perm (h : s.TakesOver t u) (h' : s.TakesOver t u') (hu : u.SettingsDiffer)
    (hu' : u'.SettingsDiffer) : u.settings.rows.Perm u'.settings.rows := by
  refine rows_perm_of_setting? hu hu' (fun key => ?_) (h.scopes.trans h'.scopes.symm)
  cases hkey : s.setting? key with
  | some value => rw [h.named key value hkey, h'.named key value hkey]
  | none => rw [h.others key hkey, h'.others key hkey]

end TakesOver

end Tables

/-! ## Restoring -/

namespace Database

/-- Restoring is refused just when the text is no object of texts, and then it changes nothing. -/
theorem restore_eq_error_iff (t : Tables) (text : String) :
    (∃ e, restore ⟨some t⟩ text = (⟨some t⟩, .error e)) ↔
      ¬ ∃ values, IsObjectOfTexts text values := by
  constructor
  · rintro ⟨e, he⟩ ⟨values, hvalues⟩
    rw [restore_of_isObjectOfTexts t hvalues] at he
    exact nomatch (Prod.mk.inj he).2
  · intro hnone
    have hread : readTexts? text = none := Option.eq_none_iff_forall_ne_some.2 fun values hvalues =>
      hnone ⟨values, readTexts?_eq_some_iff.1 hvalues⟩
    refine ⟨.other "not an object of texts", ?_⟩
    unfold restore
    rw [hread]

/-- A snapshot that is restored into another state has it take over the settings that the snapshot
names, and no others, and says how many they are; to restore it again changes nothing. It makes no
difference but in the order of the rows how the snapshot is written and in which order it names the
settings. A text that is no object of texts, and no other text, is refused, and nothing is set. -/
theorem restore_elsewhere {s t : Tables} (hs : s.SettingsDiffer) (ht : t.SettingsDiffer) :
    (∃ text u, snapshot ⟨some s⟩ = .ok text ∧
      restore ⟨some t⟩ text = (⟨some u⟩, .ok s.globalCount) ∧ s.TakesOver t u ∧
      restore ⟨some u⟩ text = (⟨some u⟩, .ok s.globalCount) ∧
      ∀ other values, IsObjectOfTexts other values → values.Perm s.globalSettings →
        ∃ u', restore ⟨some t⟩ other = (⟨some u'⟩, .ok s.globalCount) ∧ s.TakesOver t u' ∧
          u'.settings.rows.Perm u.settings.rows) ∧
    ∀ text, (∃ e, restore ⟨some t⟩ text = (⟨some t⟩, .error e)) ↔
      ¬ ∃ values, IsObjectOfTexts text values := by
  have htake := Tables.takesOver_setSettings hs t (.refl s.globalSettings)
  have hu := ht.setSettings s.globalSettings
  have hsame : (t.setSettings s.globalSettings).setSettings s.globalSettings =
      t.setSettings s.globalSettings :=
    Tables.setSettings_eq_self hu fun c hc => htake.found hs hc
  have hcount {values : List (String × String)} (hvalues : values.Perm s.globalSettings) :
      (values.map Prod.fst).eraseDups.length = s.globalCount := by
    have hnodup := (hvalues.map Prod.fst).nodup_iff.2 (Tables.nodup_globalSettings hs)
    rw [eraseDups_of_nodup hnodup, List.length_map, hvalues.length_eq, s.length_globalSettings]
  refine ⟨⟨renderTexts s.globalSettings, t.setSettings s.globalSettings, rfl, ?_, htake, ?_,
    fun other values hother hvalues => ?_⟩, restore_eq_error_iff t⟩
  · rw [restore_renderTexts, hcount (.refl _)]
  · rw [restore_renderTexts, hsame, hcount (.refl _)]
  · have htake' := Tables.takesOver_setSettings hs t hvalues
    refine ⟨t.setSettings values, ?_, htake', htake'.perm htake (ht.setSettings values) hu⟩
    rw [restore_of_isObjectOfTexts t hother, hcount hvalues]

end Database

/-- A remark with quotes, a backslash and control characters, and a depth. -/
def Tables.remarked : Tables :=
  (empty.setSetting "a \"remark\"" "1\\2\n\x01\t").setSetting maxDepthKey "3"

/-- Another depth and a facility, and a depth in another scope. -/
def Tables.furnished : Tables :=
  let t := (empty.setSetting maxDepthKey "20").setSetting facilityKey "shop"
  { t with settings := t.settings.add ⟨"office", maxDepthKey, "7"⟩ }

/-- The remark and the depth are taken over, the facility and the other scope stay, and a depth that
is a number and no text is refused. -/
theorem Database.remark_restored :
    let s := Tables.remarked
    let t := Tables.furnished
    s.SettingsDiffer ∧ t.SettingsDiffer ∧
    (∃ text u, snapshot ⟨some s⟩ = .ok text ∧ restore ⟨some t⟩ text = (⟨some u⟩, .ok 2) ∧
      u.setting? "a \"remark\"" = some "1\\2\n\x01\t" ∧ u.setting? maxDepthKey = some "3" ∧
      u.setting? facilityKey = some "shop" ∧
      u.settings.rows.filter (·.scope ≠ globalScope) = [⟨"office", maxDepthKey, "7"⟩] ∧
      restore ⟨some u⟩ text = (⟨some u⟩, .ok 2)) ∧
    ∃ e, restore ⟨some t⟩ "\x7b\"bom/max_depth\":3\x7d" = (⟨some t⟩, .error e) := by
  intro s t
  have hs : s.SettingsDiffer := by decide +kernel
  have ht : t.SettingsDiffer := by decide +kernel
  have hcount : s.globalCount = 2 := by decide +kernel
  obtain ⟨⟨text, u, hsnapshot, hrestore, htake, hagain, -⟩, hrefused⟩ := restore_elsewhere hs ht
  rw [hcount] at hrestore hagain
  refine ⟨hs, ht, ⟨text, u, hsnapshot, hrestore, htake.named _ _ (by decide +kernel),
    htake.named _ _ (by decide +kernel), ?_, ?_, hagain⟩, (hrefused _).2 ?_⟩
  · rw [htake.others facilityKey (by decide +kernel)]
    decide +kernel
  · rw [htake.scopes]
    decide +kernel
  · rintro ⟨values, hvalues⟩
    have hnone : readTexts? "\x7b\"bom/max_depth\":3\x7d" = none := by decide +kernel
    rw [readTexts?_eq_some_iff.2 hvalues] at hnone
    cases hnone

end Bom
