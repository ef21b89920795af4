import Mathlib.Data.List.Forall2
import Bom.Catalogue.Memory
import Bom.Proofs.Tables.Numbers
import Bom.Proofs.Tables.Rows

/-!
# Edges in a table

A table that edges are added to holds them in the order of the calls (`Tables.HoldsEdges.add`,
`Database.addEdges_holds`), since every association gets the number after the greatest one that was
ever used. A search goes through their rows, where a window is compared as texts, so it finds the
edges whose windows, as they are written, hold the time as it is written. It gives them back by
their sequence, and in the order of the calls within one sequence (`Database.edges_addEdges`).
-/

namespace Bom

open MemoryCatalogue (endOf)

/-! ## The rows of edges -/

/-- Every row of a list reads as it says. -/
theorem mapM_map_eq_ok {ε α β γ : Type} {f : α → β} {read : β → Except ε γ} {g : α → γ}
    (h : ∀ a, read (f a) = .ok (g a)) (xs : List α) : (xs.map f).mapM read = .ok (xs.map g) := by
  rw [List.mapM_map]
  exact mapM_eq_ok_map fun a _ => h a

/-- The order of cells is that of the numbers in them. -/
theorem bySequence_map (es : List Edge) :
    Tables.bySequence (es.map AssociationRow.ofEdge) =
      (sortBy Edge.sequence es).map AssociationRow.ofEdge :=
  sortWith_map (fun _ _ => rfl) es

/-- Where all associations are edges, a search goes through these edges. -/
theorem Tables.edges_of_rows {t : Tables} {es : List Edge}
    (h : t.associations.rows = es.map AssociationRow.ofEdge) (d : Direction)
    (product bomType : String) (routing : Option String) (asOf : DateTime) :
    t.edges d product bomType routing asOf =
      .ok ((sortBy Edge.sequence (es.filter fun e => endOf d e = product && e.bomType = bomType &&
        e.matchesRouting routing &&
          withinTexts e.window.startText e.window.stopText asOf.columnText)).map Edge.stored) := by
  have hfilter : (fun row : AssociationRow => row.endOf d = product &&
      row.isValid bomType asOf.columnText && row.routing = routing) ∘ AssociationRow.ofEdge =
      fun e => endOf d e = product && e.bomType = bomType && e.matchesRouting routing &&
        withinTexts e.window.startText e.window.stopText asOf.columnText := by
    funext e
    have hend : (AssociationRow.ofEdge e).endOf d = endOf d e := by
      cases d <;> rfl
    change ((AssociationRow.ofEdge e).endOf d = product && (decide (e.bomType = bomType) &&
      withinTexts e.window.startText e.window.stopText asOf.columnText) &&
      decide (e.routing = routing)) = _
    rw [hend]
    unfold Edge.matchesRouting
    ac_rfl
  unfold edges
  rw [h, List.filter_map, hfilter, bySequence_map, mapM_map_eq_ok AssociationRow.readEdge_ofEdge]

/-! ## What is kept of an edge -/

namespace Edge

/-- What a table keeps of an edge: all of it, but for a quantity that is not finite, a scrap that is
not a number, the sign of a scrap of zero, and what is lost by writing the window. -/
structure IsKeptAs (e kept : Edge) : Prop where
  parent : kept.parent = e.parent
  child : kept.child = e.child
  bomType : kept.bomType = e.bomType
  quantity : kept.quantity = e.quantity.filter Float.isFinite
  scrap : IsKeptInColumn e.scrap kept.scrap
  sequence : kept.sequence = e.sequence
  routing : kept.routing = e.routing
  window : kept.window = e.window.cut
  calcMethod : kept.calcMethod = e.calcMethod

theorem isKeptAs_stored (e : Edge) : e.IsKeptAs e.stored where
  parent := rfl
  child := rfl
  bomType := rfl
  quantity := rfl
  scrap := isKeptInColumn_stored e.scrap
  sequence := rfl
  routing := rfl
  window := e.window.stored_eq_cut
  calcMethod := rfl

/-- A search asks for the edge: for its end, its type, its routing and a time that, as it is written,
is in the window that is kept of it. -/
def isAsked (d : Direction) (product bomType : String) (routing : Option String) (asOf : DateTime)
    (e : Edge) : Bool :=
  endOf d e = product && e.bomType = bomType && e.matchesRouting routing &&
    e.window.cut.contains asOf.written

end Edge

/-! ## Adding edges -/

/-- The associations are the given edges in their order, under numbers up to the last one that was
used. -/
structure Tables.HoldsEdges (t : Tables) (es : List Edge) : Prop where
  rows : t.associations.rows = es.map AssociationRow.ofEdge
  numbers : ∀ e ∈ t.associations.entries, e.1 ≤ t.lastAssociation

namespace Tables.HoldsEdges

variable {t : Tables} {es : List Edge}

/-- An edge that is added goes to the end. -/
theorem add (h : t.HoldsEdges es) (e : Edge) :
    HoldsEdges { t with
      associations := t.associations.insertAt (t.lastAssociation + 1) (.ofEdge e)
      lastAssociation := t.lastAssociation + 1 } (es ++ [e]) where
  rows := by
    have hbelow (f) (hf : f ∈ t.associations.entries) : f.1 < t.lastAssociation + 1 :=
      Int.lt_add_one_of_le (h.numbers f hf)
    rw [Table.rows_insertAt_of_lt _ hbelow, h.rows, List.map_append]
    rfl
  numbers f hf := by
    rcases Table.mem_insertAt hf with hf | rfl
    · exact Int.le_add_one (h.numbers f hf)
    · exact Int.le_refl _

end Tables.HoldsEdges

/-- As long as there are numbers, an association gets the next one. -/
theorem Tables.addAssociation_of_lt {t : Tables} (h : t.lastAssociation < maxWord)
    (row : AssociationRow) :
    t.addAssociation row = .ok ({ t with
      associations := t.associations.insertAt (t.lastAssociation + 1) row
      lastAssociation := t.lastAssociation + 1 }, t.lastAssociation + 1) := by
  have hnext : t.nextAssociation = .ok (t.lastAssociation + 1) := if_pos h
  unfold addAssociation
  rw [hnext]
  rfl

namespace Database

/-- The database after edges have been added one after the other, and those of them that were not
refused. -/
def addEdges (db : Database) : List Edge → Database × List Edge
  | [] => (db, [])
  | e :: es =>
    match db.addEdge e with
    | (db, .ok _) => ((db.addEdges es).1, e :: (db.addEdges es).2)
    | (db, .error _) => db.addEdges es

/-- An edge is added at the end, or refused when there is no number left for it. -/
theorem addEdge_cases {t : Tables} {es : List Edge} (h : t.HoldsEdges es) (e : Edge) :
    (∃ t', addEdge ⟨some t⟩ e = (⟨some t'⟩, .ok t'.lastAssociation) ∧
        t'.lastAssociation = t.lastAssociation + 1 ∧ t'.HoldsEdges (es ++ [e])) ∨
      maxWord ≤ t.lastAssociation ∧
        addEdge ⟨some t⟩ e = (⟨some t⟩, .error TableFault.full.toStoreError) := by
  by_cases hroom : t.lastAssociation < maxWord
  · refine .inl ⟨_, ?_, rfl, h.add e⟩
    unfold addEdge write read
    simp only [Tables.addAssociation_of_lt hroom]
    rfl
  · have hfull : t.nextAssociation = .error .full := if_neg hroom
    refine .inr ⟨Int.not_lt.1 hroom, ?_⟩
    unfold addEdge write read
    simp only [Tables.addAssociation, hfull]
    rfl

/-- After any number of calls the associations are the edges that were not refused, in the order of
the calls. None is refused while there are numbers. -/
theorem addEdges_holds {t : Tables} {es : List Edge} (h : t.HoldsEdges es) (more : List Edge) :
    ∃ t' added, addEdges ⟨some t⟩ more = (⟨some t'⟩, added) ∧ t'.HoldsEdges (es ++ added) ∧
      added.Sublist more ∧ (t.lastAssociation + more.length ≤ maxWord → added = more) := by
  induction more generalizing t es with
  | nil => exact ⟨t, [], rfl, by rwa [List.append_nil], .slnil, fun _ => rfl⟩
  | cons e more ih =>
    rw [List.length_cons]
    unfold addEdges
    rcases addEdge_cases h e with ⟨t₁, hadd, hlast, h₁⟩ | ⟨hfull, hadd⟩
    · obtain ⟨t', added, hmore, h', hsub, hall⟩ := ih h₁
      rw [List.append_assoc, List.singleton_append] at h'
      rw [hadd]
      dsimp only
      rw [hmore]
      exact ⟨t', e :: added, rfl, h', hsub.cons_cons e, fun hroom => by rw [hall (by omega)]⟩
    · obtain ⟨t', added, hmore, h', hsub, -⟩ := ih h
      rw [hadd]
      exact ⟨t', added, hmore, h', hsub.cons e, fun hroom => by omega⟩

end Database

/-! ## What a search finds -/

/-- Places in a list ascend. -/
theorem pairwise_zipIdx {α : Type} (xs : List α) : xs.zipIdx.Pairwise fun a b => a.2 < b.2 := by
  have hplaces : (xs.zipIdx.map Prod.snd).Pairwise (· < ·) := by
    rw [List.zipIdx_map_snd]
    exact List.pairwise_lt_range' 1
  exact List.pairwise_map.1 hplaces

/-- Edges are added to a table without associations, one after the other, and those that there are
numbers for are not refused. A search at any time then finds just the edges that it asks for among
them, by their sequence and, within one sequence, in the order of the calls. Each of them is found
as a table keeps it: with its finite quantity to the last bit. -/
theorem Database.edges_addEdges {t : Tables} (hempty : t.associations.rows = []) {es : List Edge}
    (hes : ∀ e ∈ es, e.window.HasFourDigitYears) (now : DateTime) (d : Direction)
    (product bomType : String) (routing : Option String) {asOf : DateTime}
    (hasOf : asOf.HasFourDigitYear) :
    let stored := addEdges ⟨some t⟩ es
    (t.lastAssociation + es.length ≤ maxWord → stored.2 = es) ∧
      ∃ (asked : List (Edge × Nat)) (found : List Edge),
        (stored.1.catalogue now).edges d product bomType routing asOf = .ok found ∧
        asked.Perm (stored.2.zipIdx.filter fun a => a.1.isAsked d product bomType routing asOf) ∧
        (asked.Pairwise fun a b =>
          a.1.sequence < b.1.sequence ∨ a.1.sequence = b.1.sequence ∧ a.2 < b.2) ∧
        List.Forall₂ (fun a kept => a.1.IsKeptAs kept) asked found := by
  intro stored
  have hnone : t.HoldsEdges [] := by
    refine ⟨hempty, fun e he => ?_⟩
    rw [List.map_eq_nil_iff.1 hempty] at he
    cases he
  obtain ⟨t', added, hstored, h, hsub, hall⟩ := addEdges_holds hnone es
  have hstored : stored = (⟨some t'⟩, added) := hstored
  rw [List.nil_append] at h
  rw [hstored]
  let asked := sortBy (·.1.sequence)
    (added.zipIdx.filter fun a => a.1.isAsked d product bomType routing asOf)
  refine ⟨hall, asked, asked.map (·.1.stored), ?_, sortBy_perm _ _,
    sortBy_pairwise _ ((pairwise_zipIdx added).filter _),
    List.forall₂_map_right_iff.2 (List.forall₂_same.2 fun a _ => a.1.isKeptAs_stored)⟩
  have hfilter : added.filter (fun e => endOf d e = product && e.bomType = bomType &&
      e.matchesRouting routing &&
        withinTexts e.window.startText e.window.stopText asOf.columnText) =
      added.filter (Edge.isAsked d product bomType routing asOf) :=
    List.filter_congr fun e he => by
      rw [Window.withinTexts_cut (hes e (hsub.subset he)) hasOf]
      rfl
  have hasked : sortBy Edge.sequence (added.filter (Edge.isAsked d product bomType routing asOf)) =
      asked.map Prod.fst := by
    rw [← sortBy_map (fun _ => rfl)]
    conv_lhs => rw [← List.zipIdx_map_fst 0 added, List.filter_map]
    rfl
  change (t'.edges d product bomType routing asOf).mapError _ = _
  rw [Tables.edges_of_rows h.rows, hfilter, hasked, List.map_map]
  rfl

/-- An edge of the bill of a shelf. -/
def Edge.ofShelf (child : String) (sequence : Int) (quantity : Option Float)
    (start : Option DateTime) : Edge :=
  ⟨"shelf", child, defaultBomType, quantity, none, sequence, none, ⟨start, none⟩, none⟩

/-- Edges of a shelf. The board is valid from half a second after the epoch on, the door from the
next day on. -/
def shelfEdges : List Edge :=
  [.ofShelf "screw" 2 (some 8.0) none,
    .ofShelf "board" 1 (some notANumber)
      (some { DateTime.epoch with nano := 500000000, nano_lt := by decide }),
    .ofShelf "door" 1 none (some .secondDay),
    .ofShelf "nail" 2 (some (-0.0)) none]

/-- At the epoch the shelf has its board, whose quantity is not a number, then the screws and then
the nails. -/
theorem shelf_found :
    let stored := Database.addEdges ⟨some .empty⟩ shelfEdges
    stored.2 = shelfEdges ∧ ∃ found,
      (stored.1.catalogue .epoch).edges .components "shelf" defaultBomType none .epoch = .ok found ∧
        found.map (fun e => (e.child, e.quantity)) =
          [("board", none), ("screw", some 8.0), ("nail", some (-0.0))] := by
  intro stored
  have hempty : Tables.empty.associations.rows = [] := rfl
  have hyears : ∀ e ∈ shelfEdges, e.window.HasFourDigitYears := by decide +kernel
  obtain ⟨hall, -, found, hfound, -⟩ := Database.edges_addEdges hempty hyears .epoch .components
    "shelf" defaultBomType none DateTime.fitsColumn_epoch.2
  refine ⟨hall (by decide), found, hfound, ?_⟩
  have hread : ((stored.1.catalogue .epoch).edges .components "shelf" defaultBomType none
      .epoch).map (List.map fun e => (e.child, e.quantity)) =
      .ok [("board", none), ("screw", some 8.0), ("nail", some (-0.0))] := by
    decide +kernel
  rw [hfound] at hread
  exact Except.ok.inj hread

/-- A board that is there after a leap second which ends no minute is found in this leap second.
Where there are no tables, a search fails. -/
theorem shelf_found_early :
    let board : Edge := .ofShelf "board" 1 none (some .afterOddLeap)
    let stored := Database.addEdges ⟨some .empty⟩ [board]
    let found (db : Database) (asOf : DateTime) :=
      (db.catalogue .epoch).edges .components "shelf" defaultBomType none asOf
    stored.2.map Edge.child = ["board"] ∧
      (found stored.1 .oddLeapSecond).map (List.map Edge.child) = .ok ["board"] ∧
      ¬ DateTime.afterOddLeap.truncate ≤ DateTime.oddLeapSecond.truncate ∧
      (found .empty .epoch).map List.length =
        .error (TableFault.noTable "product_assoc").toStoreError := by
  decide +kernel

end Bom
