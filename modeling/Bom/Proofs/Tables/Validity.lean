import Bom.Proofs.Calendar.Reading
import Bom.Tables.Catalogue
import Bom.Tables.Insert

/-!
# Texts that decide what is valid

A search compares the text of its time with whatever texts the rows hold, while a reader of the rows
accepts several texts for one instant. A text that spells an instant in full compares as the instant
does, except where it is misplaced (`DateTime.IsSpelled.lt_iff`): a fraction of zero puts it behind
the text of the same instant, and the letter T puts it behind all texts of the same day. So an
association whose texts spell instants in full is found from its start on, unless the start is
misplaced, and up to its end or as long as the end is misplaced. Where neither of them is, it is
found just when the window that its texts stand for holds the time (`Database.mem_edgeRows_iff`).

Other texts mislead a search too, since digits that are left out and blanks that are put in move
everything behind them (`shelf_misled`).
-/

namespace Bom

namespace DateTime

/-! ## Texts that compare as instants do -/

/-- The text spells an instant of a year of four digits in full. -/
def IsSpelled (t : DateTime) (s : String) : Prop :=
  t.HasFourDigitYear ∧ ∃ mark fraction, t.IsSpelledBy s mark fraction

/-- The text of an instant comes behind the text of a time which the instant is not after: with a
fraction of zero, behind the text of the instant itself, and with the letter T, behind those of all
later times of the day. -/
def IsMisplaced (asOf t : DateTime) (s : String) : Prop :=
  ∃ mark fraction, t.IsSpelledBy s mark fraction ∧
    (mark = ' ' ∧ fraction ≠ [] ∧ t.fraction = 0 ∧ asOf = t ∨
      mark = 'T' ∧ asOf.day = t.day ∧ t ≤ asOf)

variable {asOf t : DateTime} {s : String}

/-- The text of a time comes before one that spells an instant just when the time is before the
instant, or the mark or the fraction puts the text behind it. -/
theorem IsSpelledBy.columnText_lt_iff {mark : Char} {fraction : List Char}
    (hs : t.IsSpelledBy s mark fraction) (ht : t.HasFourDigitYear) (hasOf : asOf.FitsColumn) :
    asOf.columnText < s ↔ asOf < t ∨ mark = ' ' ∧ fraction ≠ [] ∧ t.fraction = 0 ∧ asOf = t ∨
      mark = 'T' ∧ asOf.day = t.day ∧ t ≤ asOf := by
  rw [String.lt_iff, hs.toList_eq, columnText_lt_spelling hasOf.2 ht]
  rcases hs.mark_eq with rfl | rfl
  · have hmark : ' ' ≠ 'T' := by decide
    rw [lt_iff_parts hasOf.1 hs.endsMinute]
    simp only [Char.lt_irrefl, false_or, true_and, hmark, false_and, or_false]
    by_cases hzero : t.fraction = 0
    · simp only [hzero, true_and, ne_eq, not_true_eq_false, and_false, or_false,
        eq_iff_parts hasOf.1 (written_eq_self_iff.2 ⟨hzero, hs.endsMinute⟩)]
      grind
    · have hsome : fraction ≠ [] := by
        rintro rfl
        exact hzero (congrArg Prod.fst (Option.some.inj hs.fraction_eq)).symm
      simp only [hzero, hsome, ne_eq, not_false_eq_true, and_true, false_and, and_false, or_false]
  · have hmark : ' ' < 'T' ∧ 'T' ≠ ' ' := by decide
    have hlater : t ≤ asOf ↔ ¬ asOf < t := Int.not_lt.symm
    rw [hlater, lt_iff_parts hasOf.1 hs.endsMinute]
    simp only [hmark.1, hmark.2, true_or, and_true, true_and, false_and, false_or]
    omega

/-- The text of a time comes before such a text just when the time is before the instant or the text
is misplaced. -/
theorem IsSpelled.lt_iff (h : t.IsSpelled s) (hasOf : asOf.FitsColumn) :
    asOf.columnText < s ↔ asOf < t ∨ asOf.IsMisplaced t s := by
  obtain ⟨ht, mark, fraction, hs⟩ := h
  constructor
  · intro hlt
    have hplace := (hs.columnText_lt_iff ht hasOf).1 hlt
    exact hplace.imp_right fun hplace => ⟨mark, fraction, hs, hplace⟩
  · rintro (hlt | ⟨_, _, hs', hplace⟩)
    · exact (hs.columnText_lt_iff ht hasOf).2 (.inl hlt)
    · exact (hs'.columnText_lt_iff ht hasOf).2 (.inr hplace)

theorem IsSpelled.le_iff (h : t.IsSpelled s) (hasOf : asOf.FitsColumn) :
    s ≤ asOf.columnText ↔ t ≤ asOf ∧ ¬ asOf.IsMisplaced t s := by
  have hlater : ¬ asOf < t ↔ t ≤ asOf := Int.not_lt
  change ¬ asOf.columnText < s ↔ _
  rw [h.lt_iff hasOf, not_or, hlater]

/-- Such a text is read as the instant. -/
theorem IsSpelled.readColumn?_eq (h : t.IsSpelled s) : readColumn? s = some t := by
  obtain ⟨-, _, _, hs⟩ := h
  exact hs.readColumn?_eq

end DateTime

/-! ## What a search finds -/

namespace AssociationRow

/-- The window that the texts of an association stand for. -/
def window (r : AssociationRow) : Window := ⟨readColumn? r.start, r.stop.bind readColumn?⟩

variable {asOf start : DateTime} {stop : Option DateTime} {r : AssociationRow}

/-- Texts that spell instants in full stand for the window of these instants. -/
theorem window_eq (hstart : start.IsSpelled r.start)
    (hstop : Option.Rel DateTime.IsSpelled stop r.stop) : r.window = ⟨some start, stop⟩ := by
  have hread : r.stop.bind readColumn? = stop := by
    generalize r.stop = text at hstop
    cases hstop with
    | none => rfl
    | some h => exact h.readColumn?_eq
  unfold window
  rw [hread, hstart.readColumn?_eq]

/-- Such texts hold the text of a time that is neither before the start nor behind the end, apart
from where they are misplaced. -/
theorem withinTexts_iff (hasOf : asOf.FitsColumn) (hstart : start.IsSpelled r.start)
    (hstop : Option.Rel DateTime.IsSpelled stop r.stop) :
    withinTexts r.start r.stop asOf.columnText = true ↔
      (start ≤ asOf ∧ ¬ asOf.IsMisplaced start r.start) ∧
        ∀ t ∈ stop, ∀ s ∈ r.stop, asOf < t ∨ asOf.IsMisplaced t s := by
  have hended : r.stop.all (asOf.columnText < ·) = true ↔
      ∀ t ∈ stop, ∀ s ∈ r.stop, asOf < t ∨ asOf.IsMisplaced t s := by
    generalize r.stop = text at hstop
    cases hstop with
    | none => simp
    | some h =>
      simp only [Option.all_some, decide_eq_true_eq, Option.mem_def, Option.some.injEq, forall_eq',
        h.lt_iff hasOf]
  unfold withinTexts
  rw [Bool.and_eq_true, decide_eq_true_iff, hstart.le_iff hasOf, hended]

end AssociationRow

/-- The associations that a search for edges finds, in the order in which it gives them. -/
def Tables.edgeRows (t : Tables) (d : Direction) (product bomType : String)
    (routing : Option String) (asOf : DateTime) : List AssociationRow :=
  bySequence <| t.associations.rows.filter fun r =>
    r.endOf d = product && r.isValid bomType asOf.columnText && r.routing = routing

/-- A search for edges reads the associations that it finds. An association whose texts spell
instants in full is among those that are found for its own end, type and routing just from its start
on, unless the start is misplaced, and up to its end or as long as the end is misplaced. Where
neither is, this is when the time lies in the window that the texts stand for. -/
theorem Database.mem_edgeRows_iff {t : Tables} {r : AssociationRow}
    (hr : r ∈ t.associations.rows) {asOf : DateTime} (hasOf : asOf.FitsColumn) {start : DateTime}
    {stop : Option DateTime} (hstart : start.IsSpelled r.start)
    (hstop : Option.Rel DateTime.IsSpelled stop r.stop) (d : Direction) (now : DateTime) :
    let found := t.edgeRows d (r.endOf d) r.type r.routing asOf
    (catalogue ⟨some t⟩ now).edges d (r.endOf d) r.type r.routing asOf =
        (found.mapM AssociationRow.readEdge).mapError TableFault.toStoreError ∧
      r.window = ⟨some start, stop⟩ ∧
      (r ∈ found ↔ (start ≤ asOf ∧ ¬ asOf.IsMisplaced start r.start) ∧
        ∀ u ∈ stop, ∀ s ∈ r.stop, asOf < u ∨ asOf.IsMisplaced u s) ∧
      (¬ asOf.IsMisplaced start r.start →
        (∀ u ∈ stop, ∀ s ∈ r.stop, ¬ asOf.IsMisplaced u s) →
        (r ∈ found ↔ r.window.contains asOf = true)) := by
  intro found
  have hwindow := AssociationRow.window_eq hstart hstop
  have hfound : r ∈ found ↔ (start ≤ asOf ∧ ¬ asOf.IsMisplaced start r.start) ∧
      ∀ u ∈ stop, ∀ s ∈ r.stop, asOf < u ∨ asOf.IsMisplaced u s :=
    calc r ∈ found
        ↔ r ∈ t.associations.rows.filter fun row => row.endOf d = r.endOf d &&
            row.isValid r.type asOf.columnText && row.routing = r.routing :=
          (sortWith_perm _ _).mem_iff
      _ ↔ withinTexts r.start r.stop asOf.columnText = true := by
          simp [hr, AssociationRow.isValid]
      _ ↔ _ := AssociationRow.withinTexts_iff hasOf hstart hstop
  refine ⟨rfl, hwindow, hfound, fun hplaced hstopPlaced => ?_⟩
  rw [hfound, hwindow]
  unfold Window.contains
  generalize r.stop = text at hstop hstopPlaced
  cases hstop with
  | none => simp [hplaced]
  | some h => simp [hplaced, hstopPlaced]

/-- A board of a shelf, between a text with the letter T on one day and a text with a blank on the
next day, both with a fraction. -/
def AssociationRow.spelledBoard : AssociationRow :=
  ⟨"shelf", "board", defaultBomType, none, .null, .integer 0, none, "2026-05-01T08:30:00.5",
    some "2026-05-02 08:30:00.250", none⟩

/-- At half past eight of the next day the board is valid, for another quarter of a second. -/
theorem spelledBoard_found :
    let t : Tables := { Tables.empty with associations := Table.empty.insertAt 1 .spelledBoard }
    let asOf : DateTime := { day := 20575, second := 30600, nano := 0 }
    AssociationRow.spelledBoard ∈ t.edgeRows .components "shelf" defaultBomType none asOf := by
  intro t asOf
  let start : DateTime := { day := 20574, second := 30600, nano := 500000000 }
  let stop : DateTime := { day := 20575, second := 30600, nano := 250000000 }
  have hstart : start.IsSpelled AssociationRow.spelledBoard.start :=
    ⟨by decide +kernel, 'T', ['.', '5'], by decide, by decide +kernel, .inr rfl, by decide +kernel⟩
  have hstop : stop.IsSpelled "2026-05-02 08:30:00.250" :=
    ⟨by decide +kernel, ' ', ['.', '2', '5', '0'], by decide, by decide +kernel, .inl rfl,
      by decide +kernel⟩
  have hstartPlaced : ¬ asOf.IsMisplaced start AssociationRow.spelledBoard.start := by
    rintro ⟨_, _, -, ⟨-, -, hzero, -⟩ | ⟨-, hday, -⟩⟩
    · exact absurd hzero (by decide +kernel)
    · exact absurd hday (by decide)
  have hstopPlaced : ¬ asOf.IsMisplaced stop "2026-05-02 08:30:00.250" := by
    rintro ⟨_, _, -, ⟨-, -, hzero, -⟩ | ⟨-, -, hle⟩⟩
    · exact absurd hzero (by decide +kernel)
    · exact absurd hle (by decide +kernel)
  have hasOf : asOf.FitsColumn := by decide +kernel
  have hrow : AssociationRow.spelledBoard ∈ t.associations.rows := List.mem_singleton_self _
  obtain ⟨-, hwindow, -, hfound⟩ := Database.mem_edgeRows_iff hrow hasOf hstart (.some hstop)
    .components .epoch
  refine (hfound hstartPlaced fun u hu text htext => ?_).2 ?_
  · cases hu
    cases htext
    exact hstopPlaced
  · rw [hwindow]
    decide +kernel

/-- A database with one edge, of a board in a shelf, whose start is the given text. -/
def Database.shelfFrom (start : String) : Database :=
  (insertRow ⟨some .empty⟩ "product_assoc" [("product_id", .text "shelf"),
    ("product_id_to", .text "board"), ("assoc_type", .text defaultBomType),
    ("from_date", .text start)]).1

/-- Each of the first texts is read as the start of a window that holds noon of the first of May,
and the edge is not found at noon. Each of the others is read as the start of a window that does not
hold eight o'clock of that day, and the edge is found at eight. -/
theorem shelf_misled :
    let noon : DateTime := { day := 20574, second := 43200, nano := 0 }
    let eight : DateTime := { day := 20574, second := 28800, nano := 0 }
    let windowFrom (start : String) : Window := ⟨readColumn? start, none⟩
    let found (start : String) (asOf : DateTime) :=
      ((Database.shelfFrom start).catalogue .epoch).edges .components "shelf" defaultBomType none
        asOf
    (∀ start ∈ ["2026-05-01T08:30:00", "2026-05-01 12:00:00.0", "2026-05-01 12:00:00 ",
        "2026-5-01 08:30:00", "2026-05-1 08:30:00", "2026-05-01 8:30:00"],
      (readColumn? start).isSome = true ∧ (windowFrom start).contains noon = true ∧
        found start noon = .ok []) ∧
    ∀ start ∈ ["+2026-05-01 08:30:00", " 2026-05-01 08:30:00", "2026-05-01  08:30:00"],
      (readColumn? start).isSome = true ∧ (windowFrom start).contains eight = false ∧
        (found start eight).map List.length = .ok 1 := by
  decide +kernel

end Bom
