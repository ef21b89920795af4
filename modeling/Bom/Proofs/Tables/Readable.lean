import Mathlib.Data.List.Forall2
import Bom.Proofs.Tables.Insert
import Bom.Proofs.Tables.Validity
import Bom.Proofs.Tree.Unmeasured

/-!
# Which associations can be read

A column of texts takes any value as a text, so a quantity that is no number is read as a missing
one. A column of doubles keeps a text that is no number as it is, and then the row cannot be read:
not only does its scrap count for nothing, but each search that comes to the row fails, and so does
each tree that asks for it (`Database.screws_lost`). A sequence that is not whole has the same
effect. All other rows are read, and whatever their numbers are, they decide nothing but the factors
in a tree (`Database.edges_insertRow`).
-/

namespace Bom

/-! ## Values in columns -/

/-- The value is a text that is no number. -/
def Cell.IsNoNumber (c : Cell) : Prop := ∃ s, c = .text s ∧ numberOfText? s = none

/-- The double that a column of doubles makes of a value. -/
def Cell.double? (c : Cell) : Option Float :=
  match Affinity.real.store c with
  | .real x => some x
  | _ => none

/-- What a column makes of a text is a number. -/
theorem numberOfText?_cases {s : String} {c : Cell} (h : numberOfText? s = some c) :
    (∃ i, c = .integer i) ∨ ∃ x, c = .real x := by
  unfold numberOfText? at h
  obtain ⟨n, -, rfl⟩ := Option.map_eq_some_iff.1 h
  dsimp only
  generalize (if n.negative then -(n.digits : Int) else n.digits) = whole
  split
  · exact .inl ⟨whole, rfl⟩
  · cases wholeOf? n.columnFloat with
    | some i => exact .inl ⟨i, rfl⟩
    | none => exact .inr ⟨_, rfl⟩

/-- A column of doubles holds a double, or nothing, or a text that is no number. -/
theorem Affinity.store_real_cases (c : Cell) :
    c.IsNoNumber ∧ (∃ s, real.store c = .text s) ∨
      ¬ c.IsNoNumber ∧ (real.store c = .null ∨ ∃ x, real.store c = .real x) := by
  have hfloat (x : Float) : Cell.ofFloat x = .null ∨ ∃ y, Cell.ofFloat x = .real y := by
    unfold Cell.ofFloat
    split
    · exact .inl rfl
    · exact .inr ⟨_, rfl⟩
  cases c with
  | null => exact .inr ⟨nofun, .inl rfl⟩
  | integer i => exact .inr ⟨nofun, .inr ⟨_, rfl⟩⟩
  | real x => exact .inr ⟨nofun, hfloat x⟩
  | text s =>
    change _ ∧ (∃ s', toReal ((numberOfText? s).getD (.text s)) = .text s') ∨ _ ∧
      (toReal ((numberOfText? s).getD (.text s)) = .null ∨
        ∃ x, toReal ((numberOfText? s).getD (.text s)) = .real x)
    cases hnumber : numberOfText? s with
    | none => exact .inl ⟨⟨s, rfl, hnumber⟩, s, rfl⟩
    | some c =>
      refine .inr ⟨?_, ?_⟩
      · rintro ⟨_, ⟨⟩, hnone⟩
        rw [hnumber] at hnone
        cases hnone
      · rcases numberOfText?_cases hnumber with ⟨i, rfl⟩ | ⟨x, rfl⟩
        · exact .inr ⟨_, rfl⟩
        · exact hfloat x

/-- A double is read from the column of doubles just when the value was not a text that is no
number. -/
theorem Affinity.readReal?_store_real (index : Nat) (column : String) (c : Cell) :
    (¬ c.IsNoNumber → (real.store c).readReal? index column = .ok c.double?) ∧
      (c.IsNoNumber → (real.store c).readReal? index column =
        .error (.wrongKind "Text" index column)) := by
  unfold Cell.double?
  rcases store_real_cases c with ⟨hno, s, hs⟩ | ⟨hno, hs | ⟨x, hs⟩⟩
  · rw [hs]
    exact ⟨fun h => absurd hno h, fun _ => rfl⟩
  · rw [hs]
    exact ⟨fun _ => rfl, fun h => absurd h hno⟩
  · rw [hs]
    exact ⟨fun _ => rfl, fun h => absurd h hno⟩

theorem Cell.readInteger_eq_ok {index : Nat} {column : String} {c : Cell} {i : Int} :
    c.readInteger index column = .ok i ↔ c = .integer i := by
  cases c <;> simp [readInteger]

/-- A quantity that is read is finite. -/
theorem isFinite_of_readFinite? {s : String} {x : Float} (h : readFinite? s = some x) :
    x.isFinite = true := by
  unfold readFinite? at h
  exact (Option.filter_eq_some_iff.1 h).2

/-! ## Rows -/

namespace AssociationRow

/-- The row without its quantity and its scrap. -/
def unmeasured (r : AssociationRow) : AssociationRow := { r with quantity := none, scrap := .null }

/-- The edge of a row, of which the scrap and the sequence have been read. -/
def edgeWith (r : AssociationRow) (scrap : Option Float) (n : Int) : Edge where
  parent := r.product
  child := r.target
  bomType := r.type
  quantity := r.quantity.bind readFinite?
  scrap := scrap
  sequence := n
  routing := r.routing
  window := r.window
  calcMethod := r.calcMethod

/-- A row is read just when its scrap is a double or nothing and its sequence is whole. -/
theorem readEdge_eq_ok {r : AssociationRow} {e : Edge} :
    r.readEdge = .ok e ↔ ∃ scrap n, r.scrap.readReal? 4 "scrap_factor" = .ok scrap ∧
      r.sequence = .integer n ∧ e = r.edgeWith scrap n := by
  unfold readEdge
  simp only [bind_eq_ok, Cell.readInteger_eq_ok, pure_eq_ok]
  constructor
  · rintro ⟨scrap, hscrap, n, hsequence, rfl⟩
    exact ⟨scrap, n, hscrap, hsequence, rfl⟩
  · rintro ⟨scrap, n, hscrap, hsequence, rfl⟩
    exact ⟨scrap, hscrap, n, hsequence, rfl⟩

/-- What is left of a row for which numbers do not count. -/
def outline (r : AssociationRow) : AssociationRow × Except TableFault Edge :=
  (r.unmeasured, r.readEdge.map Edge.unmeasured)

/-- Numbers that can be read make no difference. -/
theorem outline_unmeasured {r : AssociationRow} {e : Edge} (h : r.readEdge = .ok e) :
    r.unmeasured.outline = r.outline := by
  obtain ⟨scrap, n, -, hsequence, rfl⟩ := readEdge_eq_ok.1 h
  have hbare : r.unmeasured.readEdge = .ok _ := readEdge_eq_ok.2 ⟨none, n, rfl, hsequence, rfl⟩
  unfold outline
  rw [h, hbare]
  rfl

end AssociationRow

/-! ## Searches -/

/-- Work on a list succeeds just when it does on each value. -/
theorem mapM_eq_ok_iff {ε α β : Type} {f : α → Except ε β} {xs : List α} {bs : List β} :
    xs.mapM f = .ok bs ↔ List.Forall₂ (fun a b => f a = .ok b) xs bs := by
  induction xs generalizing bs with
  | nil =>
    rw [List.mapM_nil, pure_eq_ok, List.forall₂_nil_left_iff, eq_comm]
  | cons a xs ih =>
    rw [List.mapM_cons, List.forall₂_cons_left_iff]
    simp only [bind_eq_ok, pure_eq_ok, ih]
    constructor
    · rintro ⟨b, hb, bs, hbs, rfl⟩
      exact ⟨b, bs, hb, hbs, rfl⟩
    · rintro ⟨b, bs, hb, hbs, rfl⟩
      exact ⟨b, hb, bs, hbs, rfl⟩

/-- Work that succeeds on a list does so on each value of it. -/
theorem exists_ok_of_mem {ε α β : Type} {f : α → Except ε β} {xs : List α} {bs : List β}
    (h : xs.mapM f = .ok bs) {a : α} (ha : a ∈ xs) : ∃ b, f a = .ok b := by
  have hread := mapM_eq_ok_iff.1 h
  clear h
  induction hread with
  | nil => cases ha
  | cons hb _ ih =>
    rcases List.mem_cons.1 ha with rfl | ha
    · exact ⟨_, hb⟩
    · exact ih ha

/-- Work on the values of a list fails with the only error that there is. -/
theorem mapM_eq_error {ε α β : Type} {f : α → Except ε β} {xs : List α} {a : α} {e : ε}
    (ha : a ∈ xs) (hfa : f a = .error e)
    (hothers : ∀ b ∈ xs, f b = .error e ∨ ∃ c, f b = .ok c) : xs.mapM f = .error e := by
  induction xs with
  | nil => cases ha
  | cons b xs ih =>
    obtain ⟨hb, hothers⟩ := List.forall_mem_cons.1 hothers
    rw [List.mapM_cons]
    rcases hb with hb | ⟨c, hb⟩
    · rw [hb]
      rfl
    · rcases List.mem_cons.1 ha with rfl | ha
      · rw [hfa] at hb
        cases hb
      · rw [hb, ih ha hothers]
        rfl

namespace Tables

variable {t t' : Tables}

/-- A search that comes to an association finds it besides the others. -/
theorem edgeRows_withAssociation {n : Int} {r : AssociationRow}
    (hfree : t.associations.hasNumber n = false) (d : Direction) {asOf : DateTime}
    (hvalid : withinTexts r.start r.stop asOf.columnText = true) :
    ((t.withAssociation n r).edgeRows d (r.endOf d) r.type r.routing asOf).Perm
      (r :: t.edgeRows d (r.endOf d) r.type r.routing asOf) := by
  let p (row : AssociationRow) : Bool :=
    row.endOf d = r.endOf d && row.isValid r.type asOf.columnText && row.routing = r.routing
  have hr : p r = true := by simp [p, AssociationRow.isValid, hvalid]
  calc bySequence ((t.associations.insertAt n r).rows.filter p)
      _ |>.Perm ((t.associations.insertAt n r).rows.filter p) := sortWith_perm _ _
      _ |>.Perm ((r :: t.associations.rows).filter p) :=
        (Table.rows_insertAt_perm r hfree).filter p
      _ = r :: t.associations.rows.filter p := List.filter_cons_of_pos hr
      _ |>.Perm (r :: bySequence (t.associations.rows.filter p)) :=
        (sortWith_perm _ _).symm.cons r

/-- An association that can be read is found besides the others. One that cannot be read fails the
search. -/
theorem edges_withAssociation {n : Int} {r : AssociationRow}
    (hfree : t.associations.hasNumber n = false) (d : Direction) {asOf : DateTime}
    (hvalid : withinTexts r.start r.stop asOf.columnText = true) {others : List Edge}
    (hothers : t.edges d (r.endOf d) r.type r.routing asOf = .ok others) :
    (∀ e, r.readEdge = .ok e → ∃ found,
      (t.withAssociation n r).edges d (r.endOf d) r.type r.routing asOf = .ok found ∧
        found.Perm (e :: others)) ∧
    ∀ fault, r.readEdge = .error fault →
      (t.withAssociation n r).edges d (r.endOf d) r.type r.routing asOf = .error fault := by
  have hperm := edgeRows_withAssociation hfree d hvalid
  have hread := mapM_eq_ok_iff.1 hothers
  constructor
  · intro e he
    obtain ⟨found, hfound, hsame⟩ := List.perm_comp_forall₂ hperm (hread.cons he)
    exact ⟨found, mapM_eq_ok_iff.2 hfound, hsame⟩
  · intro fault hfault
    refine mapM_eq_error (hperm.mem_iff.2 List.mem_cons_self) hfault fun row hrow => ?_
    rcases List.mem_cons.1 (hperm.mem_iff.1 hrow) with rfl | hrow
    · exact .inl hfault
    · exact .inr (exists_ok_of_mem hothers hrow)

/-! ## Trees -/

/-- Two states of the tables differ in nothing but the numbers of associations. -/
structure SameButNumbers (t t' : Tables) : Prop where
  outlines : t'.associations.rows.map AssociationRow.outline =
    t.associations.rows.map AssociationRow.outline
  products : t'.products = t.products
  rules : t'.rules = t.rules
  features : t'.features = t.features
  featureUses : t'.featureUses = t.featureUses
  suppliers : t'.suppliers = t.suppliers
  facilities : t'.facilities = t.facilities

/-- An association with numbers that can be read is as good as one without numbers. -/
theorem sameButNumbers_withAssociation (t : Tables) (n : Int) {r : AssociationRow} {e : Edge}
    (h : r.readEdge = .ok e) :
    (t.withAssociation n r.unmeasured).SameButNumbers (t.withAssociation n r) where
  outlines := by
    have hrows (row : AssociationRow) : (t.withAssociation n row).associations.rows =
        (t.associations.entries.filter (·.1 < n)).map Prod.snd ++
          row :: (t.associations.entries.filter (n < ·.1)).map Prod.snd := List.map_append
    rw [hrows, hrows, List.map_append, List.map_append, List.map_cons, List.map_cons,
      AssociationRow.outline_unmeasured h]
  products := rfl
  rules := rfl
  features := rfl
  featureUses := rfl
  suppliers := rfl
  facilities := rfl

namespace SameButNumbers

variable (h : t.SameButNumbers t')

include h

theorem unmeasured_rows : t'.associations.rows.map AssociationRow.unmeasured =
    t.associations.rows.map AssociationRow.unmeasured := by
  have hfst := congrArg (List.map Prod.fst) h.outlines
  rwa [List.map_map, List.map_map] at hfst

/-- The edges that a search finds are the same, and so are its faults. -/
theorem edges_eq (d : Direction) (product bomType : String) (routing : Option String)
    (asOf : DateTime) :
    (t'.edges d product bomType routing asOf).map (List.map Edge.unmeasured) =
      (t.edges d product bomType routing asOf).map (List.map Edge.unmeasured) := by
  have hsearch (s : Tables) :
      (s.edges d product bomType routing asOf).map (List.map Edge.unmeasured) =
        (sortWith (fun a b => a.1.sequence.comesBefore b.1.sequence)
          ((s.associations.rows.map AssociationRow.outline).filter fun a =>
            a.1.endOf d = product && a.1.isValid bomType asOf.columnText &&
              a.1.routing = routing)).mapM Prod.snd := by
    rw [List.filter_map, sortWith_map fun _ _ => rfl, List.mapM_map]
    exact (mapM_of_map (fun _ => rfl) _).symm
  rw [hsearch, hsearch, h.outlines]

theorem manufacturedAs_eq (product : String) (asOf : DateTime) :
    t'.manufacturedAs product asOf = t.manufacturedAs product asOf := by
  have hsearch (s : Tables) : s.manufacturedAs product asOf =
      (sortWith (fun a b => b.start ≤ a.start)
        ((s.associations.rows.map AssociationRow.unmeasured).filter fun r =>
          r.product = product && r.isValid madeAsType asOf.columnText).reverse).head?.map
            (·.target) := by
    rw [List.filter_map, ← List.map_reverse, sortWith_map fun _ _ => rfl, List.head?_map,
      Option.map_map]
    rfl
  rw [hsearch, hsearch, h.unmeasured_rows]

theorem virtualParent_eq (product : String) (asOf : DateTime) :
    t'.virtualParent product asOf = t.virtualParent product asOf := by
  have hsearch (s : Tables) : s.virtualParent product asOf =
      ((s.associations.rows.map AssociationRow.unmeasured).find? fun r =>
        r.target = product && r.isValid variantType asOf.columnText).map (·.product) := by
    rw [List.find?_map, Option.map_map]
    rfl
  rw [hsearch, hsearch, h.unmeasured_rows]

theorem featuresOf_eq (product use : String) (asOf : DateTime) :
    t'.featuresOf product use asOf = t.featuresOf product use asOf := by
  unfold featuresOf
  rw [h.features, h.featureUses]

theorem product_eq (id : String) : t'.product id = t.product id := by
  unfold product
  rw [h.products]

theorem variantsOf_eq (family : String) (now : DateTime) :
    t'.variantsOf family now = t.variantsOf family now := by
  have hsearch (s : Tables) : s.variantsOf family now =
      (bySequence ((s.associations.rows.map AssociationRow.unmeasured).filter fun r =>
        r.product = family && r.isValid variantType now.columnText)).map fun r =>
          ⟨r.target, s.featuresOf r.target distinguishingUse now⟩ := by
    unfold bySequence
    rw [List.filter_map, sortWith_map fun _ _ => rfl, List.map_map]
    rfl
  rw [hsearch, hsearch, h.unmeasured_rows]
  simp only [h.featuresOf_eq]

theorem selectedVariants_eq (family : String) (selected : List Feature) (now : DateTime) :
    t'.selectedVariants family selected now = t.selectedVariants family selected now := by
  unfold selectedVariants
  simp only [h.variantsOf_eq, h.product_eq]

/-- Both answer alike, but for the numbers of edges. -/
theorem catalogue_eq (now : DateTime) :
    (Database.catalogue ⟨some t'⟩ now).unmeasured =
      (Database.catalogue ⟨some t⟩ now).unmeasured := by
  have hedges (s : Tables) (d : Direction) (product bomType : String) (routing : Option String)
      (asOf : DateTime) :
      ((s.edges d product bomType routing asOf).mapError TableFault.toStoreError).map
          (List.map Edge.unmeasured) =
        ((s.edges d product bomType routing asOf).map (List.map Edge.unmeasured)).mapError
          TableFault.toStoreError := by
    cases s.edges d product bomType routing asOf <;> rfl
  unfold Catalogue.unmeasured Database.catalogue Database.read
  simp only [hedges, h.edges_eq, h.manufacturedAs_eq, h.virtualParent_eq, h.featuresOf_eq,
    h.product_eq, h.selectedVariants_eq, rulesIn, isSupplied, isStocked, facilityLeadTime, h.rules,
    h.suppliers, h.facilities]

end SameButNumbers

end Tables

/-! ## Rows that are given -/

/-- The units are the quantity if there is one, and else 1. -/
theorem quantityMultiplier_bind_readFinite? (text : Option String) :
    quantityMultiplier (text.bind readFinite?) = (text.bind readFinite?).getD 1.0 := by
  unfold quantityMultiplier
  cases hread : text.bind readFinite? with
  | none => rfl
  | some q =>
    obtain ⟨s, -, hs⟩ := Option.bind_eq_some_iff.1 hread
    exact if_pos (isFinite_of_readFinite? hs)

/-- The factor for scrap is that of the percentage if it can be used, and else 1. -/
theorem scrapMultiplier_eq (percent : Option Float) :
    scrapMultiplier percent = ((percent.filter usableScrap).map (1.0 + · / 100.0)).getD 1.0 := by
  unfold scrapMultiplier
  cases percent with
  | none => rfl
  | some x =>
    dsimp only
    rw [Option.filter_some]
    split <;> rfl

/-- The same values without a quantity and a scrap. -/
def withoutNumbers (given : List (String × Cell)) : List (String × Cell) :=
  ("quantity", .null) :: ("scrap_factor", .null) :: given

/-- Other columns have the same values. -/
theorem Column.stored_withoutNumbers {c : Column} (given : List (String × Cell))
    (hquantity : c.isNamed "quantity" = false) (hscrap : c.isNamed "scrap_factor" = false) :
    c.stored (withoutNumbers given) = c.stored given := by
  unfold stored value withoutNumbers
  rw [List.find?_cons_of_neg (by simpa using hquantity),
    List.find?_cons_of_neg (by simpa using hscrap)]

theorem AssociationRow.ofGiven_withoutNumbers (given : List (String × Cell)) :
    ofGiven (withoutNumbers given) = (ofGiven given).unmeasured := by
  have hquantity : (Column.text? "quantity").stored (withoutNumbers given) = .null := by
    unfold Column.stored Column.value withoutNumbers
    rw [List.find?_cons_of_pos (by decide +kernel)]
    rfl
  have hscrap : (Column.real? "scrap_factor").stored (withoutNumbers given) = .null := by
    unfold Column.stored Column.value withoutNumbers
    rw [List.find?_cons_of_neg (by decide +kernel), List.find?_cons_of_pos (by decide +kernel)]
    rfl
  unfold ofGiven unmeasured
  simp (disch := decide +kernel) only [hquantity, hscrap, Column.stored_withoutNumbers]
  rfl

/-- A table that takes a row also takes it without its numbers. -/
theorem Tables.Admits.withoutNumbers {t : Tables} {given : List (String × Cell)} {n : Int}
    (h : t.Admits given n) : t.Admits (withoutNumbers given) n where
  given_ne_nil := nofun
  known := by
    have hknown := h.known
    unfold TableName.unknownColumn? at hknown ⊢
    unfold Bom.withoutNumbers
    rw [List.map_cons, List.map_cons, List.find?_cons_of_neg (by decide +kernel),
      List.find?_cons_of_neg (by decide +kernel)]
    exact hknown
  number := by
    have hnumber := h.number
    unfold TableName.givenNumber at hnumber ⊢
    unfold Bom.withoutNumbers
    rw [List.filter_cons_of_neg (by decide +kernel), List.filter_cons_of_neg (by decide +kernel)]
    exact hnumber
  filled c hc hfilled := by
    have hother : ∀ c ∈ TableName.associations.columns, c.filled = true →
        c.isNamed "quantity" = false ∧ c.isNamed "scrap_factor" = false := by
      decide +kernel
    obtain ⟨hquantity, hscrap⟩ := hother c hc hfilled
    rw [c.stored_withoutNumbers given hquantity hscrap]
    exact h.filled c hc hfilled
  free := h.free

namespace Database

/-- A row is put into the table of associations. It can be read if its sequence is whole and what is
given for its scrap is not a text that is no number. Then a search that comes to it finds it besides
what was found before, its units and its factor for scrap being those that are given, where they can
be used, and else 1. All requests lead to the trees to which they lead when the row is put there
without its two numbers, but for the factors. A row that cannot be read fails each search that comes
to it. -/
theorem edges_insertRow {t : Tables} {given : List (String × Cell)} {after : Database}
    (h : insertRow ⟨some t⟩ "product_assoc" given = (after, .ok ())) :
    let r := AssociationRow.ofGiven given
    let quantity := ((Column.text? "quantity").stored given).text?.bind readFinite?
    let scrap := (Column.real? "scrap_factor").value given
    (scrap.IsNoNumber → r.readEdge = .error (.wrongKind "Text" 4 "scrap_factor")) ∧
    (¬ scrap.IsNoNumber → ∀ n, r.sequence = .integer n →
      r.readEdge = .ok (r.edgeWith scrap.double? n)) ∧
    ((∀ n, r.sequence ≠ .integer n) → ∃ fault, r.readEdge = .error fault) ∧
    (∀ e, r.readEdge = .ok e → quantityMultiplier e.quantity = quantity.getD 1.0 ∧
      scrapMultiplier e.scrap =
        ((scrap.double?.filter usableScrap).map (1.0 + · / 100.0)).getD 1.0) ∧
    (∀ now d asOf others, withinTexts r.start r.stop asOf.columnText = true →
      (catalogue ⟨some t⟩ now).edges d (r.endOf d) r.type r.routing asOf = .ok others →
      (∀ e, r.readEdge = .ok e → ∃ found,
        (after.catalogue now).edges d (r.endOf d) r.type r.routing asOf = .ok found ∧
          found.Perm (e :: others)) ∧
      ∀ fault, r.readEdge = .error fault →
        (after.catalogue now).edges d (r.endOf d) r.type r.routing asOf =
          .error fault.toStoreError) ∧
    ∀ e, r.readEdge = .ok e → ∃ bare,
      insertRow ⟨some t⟩ "product_assoc" (withoutNumbers given) = (bare, .ok ()) ∧
        ∀ now maxDepth request,
          (buildTree (after.catalogue now) maxDepth request).outcome.map Tree.unmeasured =
            (buildTree (bare.catalogue now) maxDepth request).outcome.map Tree.unmeasured := by
  intro r quantity scrap
  obtain ⟨n, hadmits, rfl⟩ := insertRow_eq_ok.1 h
  obtain ⟨hread, hfault⟩ := Affinity.readReal?_store_real 4 "scrap_factor" scrap
  refine ⟨fun hno => ?_, fun hno k hk => ?_, fun hno => ?_, fun e he => ?_,
    fun now d asOf others hvalid hothers => ?_, fun e he => ?_⟩
  · have hscrap : r.scrap.readReal? 4 "scrap_factor" = _ := hfault hno
    unfold AssociationRow.readEdge
    rw [hscrap]
    rfl
  · exact AssociationRow.readEdge_eq_ok.2 ⟨_, k, hread hno, hk, rfl⟩
  · cases he : r.readEdge with
    | error fault => exact ⟨fault, rfl⟩
    | ok e =>
      obtain ⟨-, k, -, hk, -⟩ := AssociationRow.readEdge_eq_ok.1 he
      exact absurd hk (hno k)
  · obtain ⟨found, k, hscrap, -, rfl⟩ := AssociationRow.readEdge_eq_ok.1 he
    have hfound : found = scrap.double? := by
      by_cases hno : scrap.IsNoNumber
      · cases (hfault hno).symm.trans hscrap
      · exact (Except.ok.inj ((hread hno).symm.trans hscrap)).symm
    refine ⟨quantityMultiplier_bind_readFinite? _, ?_⟩
    rw [← hfound]
    exact scrapMultiplier_eq found
  · obtain ⟨hfound, hfailed⟩ :=
      Tables.edges_withAssociation hadmits.free d hvalid (mapError_eq_ok.1 hothers)
    refine ⟨fun e he => ?_, fun fault he => ?_⟩
    · obtain ⟨found, hsearch, hperm⟩ := hfound e he
      exact ⟨found, mapError_eq_ok.2 hsearch, hperm⟩
    · exact congrArg (Except.mapError TableFault.toStoreError) (hfailed fault he)
  · refine ⟨⟨some (t.withAssociation n r.unmeasured)⟩, ?_, fun now maxDepth request => ?_⟩
    · rw [← AssociationRow.ofGiven_withoutNumbers given]
      exact insertRow_eq_ok.2 ⟨n, hadmits.withoutNumbers, rfl⟩
    · exact buildTree_eq_of_unmeasured
        ((t.sameButNumbers_withAssociation n he).catalogue_eq now) maxDepth request

/-- What is given for a screw of a shelf. -/
def screwGiven (quantity scrap : Cell) : List (String × Cell) :=
  [("product_id", .text "shelf"), ("product_id_to", .text "screw"),
    ("assoc_type", .text defaultBomType), ("quantity", quantity), ("scrap_factor", scrap),
    ("from_date", .text "1970-01-01 00:00:00")]

/-- Many screws of which two hundred and fifty per cent are lost count as one, and none is lost. -/
theorem many_screws :
    ∃ after, insertRow ⟨some .empty⟩ "product_assoc" (screwGiven (.text "many") (.integer 250)) =
        (after, .ok ()) ∧
      ∃ e, (after.catalogue .epoch).edges .components "shelf" defaultBomType none .epoch =
          .ok [e] ∧
        quantityMultiplier e.quantity = 1.0 ∧ scrapMultiplier e.scrap = 1.0 := by
  let given := screwGiven (.text "many") (.integer 250)
  have hresult : (insertRow ⟨some .empty⟩ "product_assoc" given).2 = .ok () := by decide +kernel
  obtain ⟨after, hafter⟩ :
      ∃ after, insertRow ⟨some .empty⟩ "product_assoc" given = (after, .ok ()) :=
    ⟨(insertRow ⟨some .empty⟩ "product_assoc" given).1, by rw [← hresult]⟩
  obtain ⟨-, hread, -, hnumbers, hsearch, -⟩ := edges_insertRow hafter
  have he := hread nofun 0 rfl
  obtain ⟨hquantity, hscrap⟩ := hnumbers _ he
  have hempty : (catalogue ⟨some .empty⟩ .epoch).edges .components "shelf" defaultBomType none
      .epoch = .ok [] := rfl
  have hvalid : withinTexts (AssociationRow.ofGiven given).start
      (AssociationRow.ofGiven given).stop DateTime.epoch.columnText = true := by decide +kernel
  obtain ⟨found, hfound, hperm⟩ := (hsearch .epoch .components .epoch [] hvalid hempty).1 _ he
  rw [List.perm_singleton.1 hperm] at hfound
  exact ⟨after, hafter, _, hfound, hquantity, hscrap⟩

/-- A scrap that is no number fails the search for the screws, and with it the tree of the shelf. -/
theorem screws_lost :
    let t := Tables.empty.putProduct (MemoryCatalogue.sampleProduct "shelf" false)
    let (after, result) :=
      insertRow ⟨some t⟩ "product_assoc" (screwGiven (.text "2") (.text "abc"))
    result = .ok () ∧
      (after.catalogue .epoch).edges .components "shelf" defaultBomType none .epoch =
        .error (.query "Invalid column type Text at index: 4, name: scrap_factor") ∧
      (buildTree (after.catalogue .epoch) 3 (.sample "shelf")).outcome.isOk = false := by
  decide +kernel

end Database

end Bom
