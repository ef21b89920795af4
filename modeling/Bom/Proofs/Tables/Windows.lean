import Bom.Proofs.Tables.Placement
import Bom.Proofs.Tables.Validity
import Bom.Proofs.Text.Bytes

/-!
# Searching by texts and searching by instants

A search compares the text of its time, byte by byte, with the texts of the rows. The calls of a
database put only the texts of windows there (`Database.InUse.allWindows`), and within the years of
four digits the bytes of two such texts have the order of the instants for which the texts stand
(`DateTime.compareBytes_columnText`). So what is found at a time is what is valid at the time, both
being taken as they are written (`Database.searches_by_instants`): without fractions, and a leap
second that ends no minute as the second after it.
-/

namespace Bom

/-! ## The order of texts -/

namespace DateTime

/-- The text of a table tells two instants apart just when it stands for two. -/
theorem columnText_inj {t u : DateTime} : t.columnText = u.columnText ↔ t.written = u.written := by
  constructor
  · intro h
    have hread := congrArg readColumn? h
    rw [readColumn?_columnText, readColumn?_columnText] at hread
    exact Option.some.inj hread
  · intro h
    rw [← t.columnText_written, ← u.columnText_written, h]

/-- The bytes of texts are ordered like the instants for which the texts stand. -/
theorem compareBytes_columnText {t u : DateTime} (ht : t.HasFourDigitYear)
    (hu : u.HasFourDigitYear) :
    compareOfLessAndEq (Text.bytes t.columnText) (Text.bytes u.columnText) =
      compareOfLessAndEq t.written u.written := by
  unfold compareOfLessAndEq
  simp only [Text.bytes_lt_iff, Text.bytes_inj, columnText_lt_iff_written ht hu, columnText_inj]

end DateTime

/-- A search keeps a row just when the bytes of its start are not behind those of the time, and the
bytes of its end are, if it has an end. -/
theorem withinTexts_iff_bytes {start time : String} {stop : Option String} :
    withinTexts start stop time = true ↔
      Text.bytes start ≤ Text.bytes time ∧ ∀ s ∈ stop, Text.bytes time < Text.bytes s := by
  unfold withinTexts
  rw [Bool.and_eq_true, decide_eq_true_iff, Text.bytes_le_iff, Option.all_eq_true]
  simp only [decide_eq_true_eq, Text.bytes_lt_iff, Option.mem_def]

/-! ## The texts that are written -/

/-- The texts of all windows of validity in the tables have a property. -/
structure Tables.AllWindows (t : Tables) (p : String → Option String → Prop) : Prop where
  associations : ∀ r ∈ t.associations.rows, p r.start r.stop
  rules : ∀ r ∈ t.rules.rows, p r.start r.stop
  featureUses : ∀ r ∈ t.featureUses.rows, p r.start r.stop
  suppliers : ∀ r ∈ t.suppliers.rows, p r.start r.stop

namespace Tables.AllWindows

variable {t t' : Tables} {p : String → Option String → Prop}

/-- A row that a call puts has the texts of a window. -/
theorem changes (h : t.AllWindows p) (hp : ∀ w : Window, p w.startText w.stopText)
    (hcall : t.Changes t') : t'.AllWindows p := by
  cases hcall with
  | aside => exact { h with }
  | edge n e =>
    exact { h with associations := Table.forall_rows_insertAt (hp e.window) h.associations }
  | link n product target type start =>
    exact { h with
      associations := Table.forall_rows_insertAt (hp ⟨some start, none⟩) h.associations }
  | rule r => exact { h with rules := Table.forall_rows_put (hp r.window) h.rules }
  | feature product f use start =>
    rw [applyFeature_eq]
    exact { h with featureUses := Table.forall_rows_put (hp ⟨some start, none⟩) h.featureUses }
  | supplier product party preference start stop =>
    exact { h with suppliers := Table.forall_rows_put (hp ⟨some start, stop⟩) h.suppliers }
  | facility => exact { h with }

end Tables.AllWindows

/-- What holds of the texts of all windows holds of all texts that get into the tables. -/
theorem Database.InUse.allWindows {db : Database} (h : db.InUse)
    {p : String → Option String → Prop} (hp : ∀ w : Window, p w.startText w.stopText) :
    ∃ t, db = ⟨some t⟩ ∧ t.AllWindows p := by
  induction h with
  | setUp now => exact ⟨_, rfl, by constructor <;> exact fun _ hrow => nomatch hrow⟩
  | store _ hcall ih =>
    obtain ⟨t, rfl, ht⟩ := ih
    obtain ⟨t', rfl, hchange⟩ := hcall.changes
    exact ⟨t', rfl, ht.changes hp hchange⟩

/-! ## What a search finds -/

/-- A window that is kept has the years of the one that was given. -/
theorem Window.hasFourDigitYears_of_cut {w : Window} (h : w.cut.HasFourDigitYears) :
    w.HasFourDigitYears := by
  obtain ⟨hstart, hstop⟩ := h
  refine ⟨fun t ht => ?_, fun t ht =>
    DateTime.hasFourDigitYear_written.1 (hstop t.written (Option.mem_map_of_mem _ ht))⟩
  have hkept : (w.start.getD .epoch).written.HasFourDigitYear := hstart _ rfl
  rw [Option.mem_def.1 ht] at hkept
  exact DateTime.hasFourDigitYear_written.1 hkept

/-- An association with the texts of a window is kept by a search just when the window that is read
off them holds the time as it is written. -/
theorem AssociationRow.withinTexts_eq_window {r : AssociationRow} {w : Window}
    (hstart : r.start = w.startText) (hstop : r.stop = w.stopText)
    (hyears : r.window.HasFourDigitYears) {asOf : DateTime} (hasOf : asOf.HasFourDigitYear) :
    withinTexts r.start r.stop asOf.columnText = r.window.contains asOf.written := by
  have hread : r.window = w.cut := by
    rw [← w.stored_eq_cut]
    unfold window Window.stored
    rw [hstart, hstop]
  rw [hread] at hyears ⊢
  rw [hstart, hstop, Window.withinTexts_cut (Window.hasFourDigitYears_of_cut hyears) hasOf]

/-- The bytes of the texts of two instants, of years of four digits, are ordered like the instants as
they are written: without their fractions, and each leap second that ends no minute as the second
after it. So the texts of a window decide by their bytes what is valid as the window does, all
instants being taken as they are written. In any state that a database gets into in use, all texts
of windows in the tables are such texts, and where their years have four digits a search for edges
finds the associations whose windows, read off these texts, hold the time as it is written. -/
theorem Database.searches_by_instants :
    (∀ a b : DateTime, a.HasFourDigitYear → b.HasFourDigitYear →
      compareOfLessAndEq (Text.bytes a.columnText) (Text.bytes b.columnText) =
        compareOfLessAndEq a.written b.written) ∧
    (∀ (w : Window) (asOf : DateTime), w.HasFourDigitYears → asOf.HasFourDigitYear →
      (Text.bytes w.startText ≤ Text.bytes asOf.columnText ∧
          (∀ s ∈ w.stopText, Text.bytes asOf.columnText < Text.bytes s) ↔
        w.cut.contains asOf.written = true)) ∧
    ∀ db : Database, db.InUse → ∃ t, db = ⟨some t⟩ ∧
      t.AllWindows (fun start stop => ∃ w : Window, start = w.startText ∧ stop = w.stopText ∧
        ⟨readColumn? start, stop.bind readColumn?⟩ = w.cut) ∧
      ((∀ r ∈ t.associations.rows, r.window.HasFourDigitYears) →
        ∀ asOf : DateTime, asOf.HasFourDigitYear →
        ∀ (now : DateTime) (d : Direction) (product bomType : String) (routing : Option String),
          (db.catalogue now).edges d product bomType routing asOf =
            ((Tables.bySequence <| t.associations.rows.filter fun r =>
              r.endOf d = product && (r.type = bomType && r.window.contains asOf.written) &&
                r.routing = routing).mapM AssociationRow.readEdge).mapError
              TableFault.toStoreError) := by
  refine ⟨fun a b => DateTime.compareBytes_columnText, fun w asOf hw hasOf => ?_, fun db h => ?_⟩
  · rw [← withinTexts_iff_bytes, Window.withinTexts_cut hw hasOf]
  · obtain ⟨t, rfl, ht⟩ := h.allWindows (p := fun start stop => ∃ w : Window,
      start = w.startText ∧ stop = w.stopText ∧ ⟨readColumn? start, stop.bind readColumn?⟩ = w.cut)
      fun w => ⟨w, rfl, rfl, w.stored_eq_cut⟩
    refine ⟨t, rfl, ht, fun hyears asOf hasOf now d product bomType routing => ?_⟩
    have hfound : (t.associations.rows.filter fun r =>
          r.endOf d = product && r.isValid bomType asOf.columnText && r.routing = routing) =
        t.associations.rows.filter fun r =>
          r.endOf d = product && (r.type = bomType && r.window.contains asOf.written) &&
            r.routing = routing := by
      refine List.filter_congr fun r hr => ?_
      obtain ⟨w, hstart, hstop, -⟩ := ht.associations r hr
      unfold AssociationRow.isValid
      rw [AssociationRow.withinTexts_eq_window hstart hstop (hyears r hr) hasOf]
    change (t.edges d product bomType routing asOf).mapError _ = _
    unfold Tables.edges
    rw [hfound]

/-- An edge that begins in the middle of the leap second at the end of 2016 and ends in the last
second of the year 9999. -/
def Edge.longRung : Edge :=
  ⟨"ladder", "rung", defaultBomType, none, none, 1, none,
    ⟨some { day := 17166, second := 86399, nano := 1500000000 },
      some { day := 2932896, second := 86399, nano := 900000000 }⟩, none⟩

/-- A database in use, with this edge. -/
def Database.ladder : Database :=
  ((empty.setUp "1970-01-01 00:00:00").addEdge .longRung).1

/-- The text of the leap second comes before that of the midnight that follows it. The rung is found
from the beginning of the leap second on, but not in the second before, and it is no longer found in
the last second of the year 9999. -/
theorem Database.ladder_searched :
    let leapSecond : DateTime := { day := 17166, second := 86399, nano := 1000000000 }
    let midnight : DateTime := { day := 17167, second := 0, nano := 0 }
    let before : DateTime := { day := 17166, second := 86399, nano := 0 }
    let last : DateTime := { day := 2932896, second := 86399, nano := 0 }
    let count (asOf : DateTime) :=
      ((ladder.catalogue .epoch).edges .components "ladder" defaultBomType none asOf).map
        List.length
    compareOfLessAndEq (Text.bytes leapSecond.columnText) (Text.bytes midnight.columnText) = .lt ∧
      Text.bytes Edge.longRung.window.startText ≤ Text.bytes leapSecond.columnText ∧
      count before = .ok 0 ∧ count leapSecond = .ok 1 ∧ count midnight = .ok 1 ∧
      count last = .ok 0 := by
  intro leapSecond midnight before last count
  obtain ⟨hcompare, hwindow, hsearch⟩ := searches_by_instants
  obtain ⟨t, ht, -, hedges⟩ := hsearch ladder (.store (.setUp _) (.addEdge _))
  obtain rfl : ladder.tables.getD .empty = t := by
    rw [ht]
    rfl
  have hyears : ∀ r ∈ (ladder.tables.getD .empty).associations.rows,
      r.window.HasFourDigitYears := by
    decide +kernel
  have hcount (asOf : DateTime) (hasOf : asOf.HasFourDigitYear) := congrArg (Except.map List.length)
    (hedges hyears asOf hasOf .epoch .components "ladder" defaultBomType none)
  refine ⟨?_, ?_, ?_, ?_, ?_, ?_⟩
  · exact (hcompare leapSecond midnight (by decide +kernel) (by decide +kernel)).trans
      (by decide +kernel)
  · exact ((hwindow Edge.longRung.window leapSecond (by decide +kernel) (by decide +kernel)).2
      (by decide +kernel)).1
  · exact (hcount before (by decide +kernel)).trans (by decide +kernel)
  · exact (hcount leapSecond (by decide +kernel)).trans (by decide +kernel)
  · exact (hcount midnight (by decide +kernel)).trans (by decide +kernel)
  · exact (hcount last (by decide +kernel)).trans (by decide +kernel)

/-- A leap second that ends no minute has the text of the second after it, though it comes before
this second. A rung from the year 10000 on, whose text begins with a sign, is found in the year 2026. -/
theorem Database.ladder_found_early :
    let newYear : DateTime := { day := 20454, second := 0, nano := 0 }
    let late : Window := ⟨some { day := 2932897, second := 0, nano := 0 }, none⟩
    let db := ((empty.setUp "1970-01-01 00:00:00").addEdge { Edge.longRung with window := late }).1
    compareOfLessAndEq (Text.bytes DateTime.oddLeapSecond.columnText)
        (Text.bytes DateTime.afterOddLeap.columnText) = .eq ∧
      compareOfLessAndEq DateTime.oddLeapSecond.truncate DateTime.afterOddLeap.truncate = .lt ∧
      ((db.catalogue .epoch).edges .components "ladder" defaultBomType none newYear).map
        List.length = .ok 1 ∧
      late.contains newYear = false := by
  decide +kernel

end Bom
