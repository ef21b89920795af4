import Bom.Proofs.Calendar.Text
import Bom.Proofs.Tables.Numbers
import Bom.Tables.Catalogue

/-!
# Features and their uses

A feature that a product is to use is noted down under its id, but one that is known keeps the kind
that it has. So the kind of an id is that of its first call (`Tables.featureKind?_applyFeatures`),
and a use that is written down is found with this kind from its start on, whatever kind the call
names (`Database.features_applyFeature`, `Database.finish_not_found`).

Other products go on using what they used. A use takes the place only of one of the same product,
and what is used has its kind already (`Tables.KnowsUses`), so nothing that is noted down later
changes it.
-/

namespace Bom

/-- A call that has a product use a feature from some time on. -/
structure FeatureCall where
  product : String
  feature : Feature
  use : String
  start : DateTime

/-- The kind that the first call for a feature names. -/
def firstKind? (calls : List FeatureCall) (id : String) : Option String :=
  (calls.find? (·.feature.id = id)).map (·.feature.kind)

namespace Tables

variable {t t' : Tables}

/-! ## Kinds -/

/-- The kind of the feature with the given id. -/
def featureKind? (t : Tables) (id : String) : Option String :=
  (t.features.rows.find? (·.id = some id)).map (·.kind)

/-- A feature that is noted down gets its kind, unless it has one. -/
theorem featureKind?_noteFeature (t : Tables) (f : Feature) (id : String) :
    (t.noteFeature f).featureKind? id =
      (t.featureKind? id).or (if f.id = id then some f.kind else none) := by
  unfold noteFeature
  split
  case isTrue hknown =>
    have hkind : (t.featureKind? f.id).isSome = true := by
      unfold featureKind?
      rw [Option.isSome_map, List.find?_isSome]
      exact List.any_eq_true.1 hknown
    by_cases hid : f.id = id
    · rw [← hid, Option.or_of_isSome hkind]
    · rw [if_neg hid, Option.or_none]
  case isFalse hnew =>
    let row : FeatureRow := ⟨some f.id, f.kind, none⟩
    have hfresh (hid : decide (row.id = some id) = true) :
        t.features.rows.find? (·.id = some id) = none := by
      rw [← of_decide_eq_true hid]
      simpa using hnew
    unfold featureKind?
    rw [t.features.find?_rows_add row hfresh]
    by_cases hid : f.id = id
    · have hrow : decide (row.id = some id) = true := decide_eq_true (congrArg some hid)
      rw [hfresh hrow, if_pos hrow, if_pos hid]
      rfl
    · have hrow : ¬ decide (row.id = some id) = true := by simpa [row] using hid
      rw [if_neg hrow, if_neg hid, Option.or_none]

/-- Whatever a product uses is a feature that has a kind. -/
def KnowsUses (t : Tables) : Prop :=
  ∀ u ∈ t.featureUses.rows, (t.featureKind? u.feature).isSome = true

/-! ## What is found -/

/-- A product has a feature at some time if it uses it then, and the feature is of that kind. -/
theorem mem_featuresOf {product use : String} {asOf : DateTime} {f : Feature} :
    f ∈ t.featuresOf product use asOf ↔ t.featureKind? f.id = some f.kind ∧
      ∃ u ∈ t.featureUses.rows, u.product = product ∧ u.use = use ∧ u.feature = f.id ∧
        withinTexts u.start u.stop asOf.columnText = true := by
  unfold featuresOf featureKind?
  simp only [List.mem_filterMap, (sortWith_perm _ _).mem_iff, List.mem_filter, Bool.and_eq_true,
    decide_eq_true_eq, Option.map_eq_some_iff]
  constructor
  · rintro ⟨u, ⟨hu, ⟨hproduct, huse⟩, hvalid⟩, row, hrow, rfl⟩
    exact ⟨⟨row, hrow, rfl⟩, u, hu, hproduct, huse, rfl, hvalid⟩
  · rintro ⟨⟨row, hrow, hkind⟩, u, hu, hproduct, huse, hid, hvalid⟩
    refine ⟨u, ⟨hu, ⟨hproduct, huse⟩, hvalid⟩, row, hid ▸ hrow, ?_⟩
    rw [hid, hkind]

/-- What is found for a product depends on its own uses and on the kinds of what it uses. -/
theorem featuresOf_congr {product : String}
    (huses : t'.featureUses.rows.filter (·.product = product) =
      t.featureUses.rows.filter (·.product = product))
    (hkinds : ∀ u ∈ t.featureUses.rows, t'.featureKind? u.feature = t.featureKind? u.feature)
    (use : String) (asOf : DateTime) :
    t'.featuresOf product use asOf = t.featuresOf product use asOf := by
  have hsplit (rows : List FeatureUseRow) :
      rows.filter (fun u => u.product = product && u.use = use &&
          withinTexts u.start u.stop asOf.columnText) =
        (rows.filter (·.product = product)).filter fun u =>
          u.use = use && withinTexts u.start u.stop asOf.columnText := by
    rw [List.filter_filter]
    refine List.filter_congr fun u _ => ?_
    ac_rfl
  have hkind (s : Tables) (u : FeatureUseRow) :
      ((s.features.rows.find? (·.id = some u.feature)).map fun f =>
        (⟨u.feature, f.kind⟩ : Feature)) = (s.featureKind? u.feature).map (⟨u.feature, ·⟩) := by
    unfold featureKind?
    rw [Option.map_map]
    rfl
  unfold featuresOf
  simp only [hsplit, huses, hkind]
  refine List.filterMap_congr fun u hu => ?_
  simp only [(sortWith_perm _ _).mem_iff, List.mem_filter] at hu
  rw [hkinds u hu.1.1]

/-! ## One call -/

section

variable (product : String) (f : Feature) (use : String) (start : DateTime)

/-- A call gives its kind to a feature that has none. -/
theorem featureKind?_applyFeature (id : String) :
    (t.applyFeature product f use start).featureKind? id =
      (t.featureKind? id).or (if f.id = id then some f.kind else none) :=
  t.featureKind?_noteFeature f id

/-- A call puts one use, and besides only notes features down. -/
theorem applyFeature_eq :
    t.applyFeature product f use start =
      { t with
        features := (t.noteFeature f).features
        featureUses := t.featureUses.put (fun u => (u.product, u.feature, u.start))
          ⟨product, f.id, use, start.columnText, none⟩ } := by
  unfold applyFeature noteFeature
  dsimp only
  split <;> rfl

theorem mem_featureUses_applyFeature {u : FeatureUseRow} :
    u ∈ (t.applyFeature product f use start).featureUses.rows ↔
      u = ⟨product, f.id, use, start.columnText, none⟩ ∨ u ∈ t.featureUses.rows ∧
        (u.product, u.feature, u.start) ≠ (product, f.id, start.columnText) := by
  rw [applyFeature_eq, (t.featureUses.rows_put_perm _ _).mem_iff, List.mem_cons, List.mem_filter,
    decide_eq_true_eq]

/-- What is used has a kind after a call if it had one before. -/
theorem KnowsUses.applyFeature (h : t.KnowsUses) :
    (t.applyFeature product f use start).KnowsUses := by
  intro u hu
  rw [featureKind?_applyFeature, Option.isSome_or, Bool.or_eq_true]
  rcases (mem_featureUses_applyFeature ..).1 hu with rfl | ⟨hu, -⟩
  · right
    rw [if_pos rfl]
    rfl
  · exact .inl (h u hu)

/-- A call changes nothing that is found for other products. -/
theorem KnowsUses.featuresOf_applyFeature (h : t.KnowsUses) {other : String}
    (hother : other ≠ product) (otherUse : String) (asOf : DateTime) :
    (t.applyFeature product f use start).featuresOf other otherUse asOf =
      t.featuresOf other otherUse asOf := by
  refine featuresOf_congr ?_ (fun u hu => ?_) otherUse asOf
  · rw [applyFeature_eq]
    refine t.featureUses.filter_rows_put fun u hu => decide_eq_false fun hproduct => hother ?_
    rw [← hproduct]
    exact congrArg Prod.fst hu
  · rw [featureKind?_applyFeature, Option.or_of_isSome (h u hu)]

end

/-! ## Calls one after the other -/

/-- The tables after some calls. -/
def applyFeatures (t : Tables) (calls : List FeatureCall) : Tables :=
  calls.foldl (fun t c => t.applyFeature c.product c.feature c.use c.start) t

theorem KnowsUses.applyFeatures (h : t.KnowsUses) (calls : List FeatureCall) :
    (t.applyFeatures calls).KnowsUses := by
  induction calls generalizing t with
  | nil => exact h
  | cons call calls ih => exact ih (h.applyFeature call.product call.feature call.use call.start)

/-- A feature keeps its kind, and one that has none gets that of the first call for it. -/
theorem featureKind?_applyFeatures (calls : List FeatureCall) (id : String) :
    (t.applyFeatures calls).featureKind? id = (t.featureKind? id).or (firstKind? calls id) := by
  induction calls generalizing t with
  | nil => exact Option.or_none.symm
  | cons call calls ih =>
    have hfirst : firstKind? (call :: calls) id =
        (if call.feature.id = id then some call.feature.kind else none).or
          (firstKind? calls id) := by
      unfold firstKind?
      rw [List.find?_cons]
      by_cases hid : call.feature.id = id <;> simp [hid]
    rw [hfirst, ← Option.or_assoc, ← featureKind?_applyFeature call.product call.feature call.use
      call.start]
    exact ih

end Tables

namespace Database

/-- The database after some calls. -/
def applyFeatures (db : Database) (calls : List FeatureCall) : Database :=
  calls.foldl (fun db c => (db.applyFeature c.product c.feature c.use c.start).1) db

theorem applyFeatures_some (t : Tables) (calls : List FeatureCall) :
    applyFeatures ⟨some t⟩ calls = ⟨some (t.applyFeatures calls)⟩ := by
  induction calls generalizing t with
  | nil => rfl
  | cons call calls ih => exact ih _

/-- In tables where all that is used has a kind, calls are made one after the other, and then one
more for a standard feature. It succeeds, and from its start on the feature is found for the
product, with the kind that its id had or was first given. With any other kind the id is not found,
and for other products all is found as before. -/
theorem features_applyFeature {t : Tables} (ht : t.KnowsUses) (calls : List FeatureCall)
    (product : String) (f : Feature) {start : DateTime} (hstart : start.HasFourDigitYear) :
    let before := applyFeatures ⟨some t⟩ calls
    let kind := ((t.featureKind? f.id).or (firstKind? calls f.id)).getD f.kind
    ∃ after, before.applyFeature product f standardUse start = (after, .ok ()) ∧
      (∀ now asOf : DateTime, asOf.HasFourDigitYear → start ≤ asOf →
        ∃ found, (after.catalogue now).features product asOf = .ok found ∧
          ⟨f.id, kind⟩ ∈ found ∧ ∀ g ∈ found, g.id = f.id → g.kind = kind) ∧
      ∀ now asOf other, other ≠ product →
        (after.catalogue now).features other asOf = (before.catalogue now).features other asOf := by
  intro before kind
  let calledOn := t.applyFeatures calls
  let called := calledOn.applyFeature product f standardUse start
  have hbefore : before = ⟨some calledOn⟩ := applyFeatures_some t calls
  have hkind : called.featureKind? f.id = some kind := by
    rw [Tables.featureKind?_applyFeature, if_pos rfl, Tables.featureKind?_applyFeatures]
    exact Option.or_some ..
  rw [hbefore]
  refine ⟨⟨some called⟩, rfl, fun now asOf hasOf hle => ?_, fun now asOf other hother => ?_⟩
  · refine ⟨called.featuresOf product standardUse asOf, rfl, Tables.mem_featuresOf.2 ⟨hkind,
      ⟨product, f.id, standardUse, start.columnText, none⟩, ?_, rfl, rfl, rfl, ?_⟩,
      fun g hg hid => ?_⟩
    · exact (Tables.mem_featureUses_applyFeature ..).2 (.inl rfl)
    · have hbegun : start.columnText ≤ asOf.columnText :=
        (DateTime.columnText_le_iff_written hstart hasOf).2 (DateTime.written_le_written hle)
      simpa [withinTexts] using hbegun
    · obtain ⟨hgkind, -⟩ := Tables.mem_featuresOf.1 hg
      rw [hid, hkind] at hgkind
      exact (Option.some.inj hgkind).symm
  · have hsame := (ht.applyFeatures calls).featuresOf_applyFeature product f standardUse start
      hother standardUse asOf
    exact congrArg Except.ok hsame

/-- A chair uses oak as a color. -/
def chairOfOak : FeatureCall := ⟨"chair", ⟨"oak", "COLOR"⟩, standardUse, .epoch⟩

/-- When a table is to use oak as a finish on the next day, it uses oak as a color from then on. -/
theorem table_of_oak :
    Tables.empty.KnowsUses ∧ DateTime.secondDay.HasFourDigitYear ∧
      ∃ after, (applyFeatures ⟨some .empty⟩ [chairOfOak]).applyFeature "table" ⟨"oak", "FINISH"⟩
          standardUse .secondDay = (after, .ok ()) ∧
        ∃ found, (after.catalogue .epoch).features "table" .secondDay = .ok found ∧
          ⟨"oak", "COLOR"⟩ ∈ found := by
  have hknown : Tables.empty.KnowsUses := nofun
  have hyear : DateTime.secondDay.HasFourDigitYear := by decide +kernel
  obtain ⟨after, happlied, hfound, -⟩ :=
    features_applyFeature hknown [chairOfOak] "table" ⟨"oak", "FINISH"⟩ hyear
  obtain ⟨found, hanswer, hoak, -⟩ := hfound .epoch .secondDay hyear (Int.le_refl _)
  exact ⟨hknown, hyear, after, happlied, found, hanswer, hoak⟩

/-- The table is not found to use the finish that it was to use. -/
theorem finish_not_found :
    let before := applyFeatures (empty.setUp "2026-05-01 08:00:00") [chairOfOak]
    let (after, result) := before.applyFeature "table" ⟨"oak", "FINISH"⟩ standardUse .epoch
    result = .ok () ∧
      ∃ found, (after.catalogue .epoch).features "table" .epoch = .ok found ∧
        ⟨"oak", "FINISH"⟩ ∉ found :=
  ⟨rfl, [⟨"oak", "COLOR"⟩], by decide +kernel, by decide⟩

end Database

end Bom
