import Bom.Proofs.Calendar.Reading
import Bom.Proofs.Decimal.Text
import Bom.Proofs.Lookup
import Bom.Proofs.Tree.Rendition
import Bom.Tables.Catalogue

/-!
# What a row gives back

A row that is written of a product, an edge or a rule can be read. It gives back the same data, but
for three changes: a column of doubles has no not-a-number and no sign of zero, a quantity that is
not finite is missing, and a window of validity is read off its texts. These changes are a rendition
that the engine does not see (`Rendition.stored_isFaithful`).

What is read off the texts of a window is the window with its bounds as they are written, and from
the epoch on if it has no start (`Window.stored_eq_cut`). The texts decide what is valid as this
window does (`Window.withinTexts_cut`), which is the window itself if it fits a column
(`Window.withinTexts_eq`).
-/

namespace Bom

/-! ## Doubles in columns -/

/-- A double that comes out of a column of doubles. -/
def storedFloat? (x : Option Float) : Option Float := (x.filter (!·.isNaN)).map (· + 0.0)

theorem Cell.readReal?_ofFloat? (index : Nat) (column : String) (x : Option Float) :
    (Cell.ofFloat? x).readReal? index column = .ok (storedFloat? x) := by
  unfold storedFloat?
  cases x with
  | none => rfl
  | some x =>
    unfold Cell.ofFloat? Cell.ofFloat
    dsimp only
    rw [Option.filter_some]
    cases x.isNaN <;> rfl

/-- The negative zero is the only double that the addition of zero changes. -/
theorem add_zero_eq_or (x : Float) : x + 0.0 = x ∨ x = -0.0 := by
  by_cases h : x.toModel.unpack = .zero .negative
  · right
    refine eq_of_unpack_eq ?_
    rw [h]
    rfl
  · exact .inl (add_zero_eq h)

/-- Only not-a-number differs from itself. -/
theorem beq_self_of_isNaN_eq_false {x : Float} (h : x.isNaN = false) : (x == x) = true := by
  change x.toModel.unpack.beq x.toModel.unpack = true
  change x.toModel.unpack.isNaN = false at h
  cases hx : x.toModel.unpack with
  | finite s m e =>
    unfold Float.Model.UnpackedFloat.beq Float.Model.UnpackedFloat.compare
    cases s <;> simp
  | zero s => rfl
  | infinity s => cases s <;> rfl
  | notANumber =>
    rw [hx] at h
    cases h

/-- The column keeps a double up to the sign of zero. -/
theorem add_zero_beq {x : Float} (h : x.isNaN = false) : (x + 0.0 == x) = true := by
  rcases add_zero_eq_or x with hsame | rfl
  · rw [hsame]
    exact beq_self_of_isNaN_eq_false h
  · decide +kernel

/-- A column of doubles keeps a double as an equal one, and not-a-number as nothing. -/
def IsKeptInColumn (x kept : Option Float) : Prop :=
  Option.Rel (fun y k => (k == y) = true) (x.filter (!·.isNaN)) kept

theorem isKeptInColumn_stored (x : Option Float) : IsKeptInColumn x (storedFloat? x) := by
  unfold IsKeptInColumn storedFloat?
  cases hx : x.filter (!·.isNaN) with
  | none => exact .none
  | some y =>
    obtain ⟨-, hy⟩ := Option.filter_eq_some_iff.1 hx
    exact .some (add_zero_beq (by simpa using hy))

/-- A use of doubles that treats not-a-number as it treats a missing number, and both zeros alike,
makes nothing of the change. -/
theorem storedFloat_elim {α : Sort*} {f : Option Float → α}
    (hnan : ∀ x : Float, x.isNaN = true → f (some x) = f none)
    (hzero : f (some (-0.0)) = f (some 0.0)) (x : Option Float) : f (storedFloat? x) = f x := by
  cases x with
  | none => rfl
  | some x =>
    unfold storedFloat?
    rw [Option.filter_some]
    cases hx : x.isNaN with
    | true => exact (hnan x hx).symm
    | false =>
      change f (some (x + 0.0)) = f (some x)
      rcases add_zero_eq_or x with hsame | rfl
      · rw [hsame]
      · rw [hzero]
        have hsum : (-0.0 : Float) + 0.0 = 0.0 := by decide +kernel
        rw [hsum]

theorem not_isFinite_of_isNaN {x : Float} (h : x.isNaN = true) : x.isFinite = false := by
  change x.toModel.unpack.isNaN = true at h
  change x.toModel.unpack.isFinite = false
  cases hx : x.toModel.unpack with
  | notANumber => rfl
  | _ =>
    rw [hx] at h
    cases h

theorem scrapMultiplier_stored (x : Option Float) :
    scrapMultiplier (storedFloat? x) = scrapMultiplier x := by
  refine storedFloat_elim (fun y hy => ?_) (by decide +kernel) x
  unfold scrapMultiplier usableScrap
  simp only [not_isFinite_of_isNaN hy, Bool.false_and, Bool.false_eq_true, if_false]

/-- A quantity is kept as a text, and one that is not finite is not read back. -/
theorem bind_readFinite_map_floatText (x : Option Float) :
    (x.map floatText).bind readFinite? = x.filter Float.isFinite := by
  cases x with
  | none => rfl
  | some x =>
    rw [Option.map_some, Option.bind_some, Option.filter_some]
    cases hx : x.isFinite with
    | true => exact readFinite_floatText hx
    | false => exact readFinite_floatText_eq_none hx

theorem quantityMultiplier_filter (x : Option Float) :
    quantityMultiplier (x.filter Float.isFinite) = quantityMultiplier x := by
  cases x with
  | none => rfl
  | some x =>
    unfold quantityMultiplier
    rw [Option.filter_some]
    cases hx : x.isFinite <;> simp [hx]

/-- Not-a-number is not greater than zero. -/
theorem not_pos_of_isNaN {x : Float} (h : x.isNaN = true) : ¬ x > 0.0 := by
  have hmodel : x > 0.0 ↔ (Float.toModel 0.0).unpack.lt x.toModel.unpack = true :=
    decide_eq_true_iff
  have hzero : (Float.toModel 0.0).unpack = .zero .positive := rfl
  change x.toModel.unpack.isNaN = true at h
  rw [hmodel, hzero]
  cases hx : x.toModel.unpack with
  | notANumber => exact Bool.false_ne_true
  | _ =>
    rw [hx] at h
    cases h

/-! ## Windows as texts -/

namespace Window

/-- The window that a table keeps: its bounds as they are written, without the fractions of their
seconds, and from the epoch on if it has no start. -/
def cut (w : Window) : Window :=
  ⟨some (w.start.getD .epoch).written, w.stop.map DateTime.written⟩

/-- The years of the bounds are written with four digits. -/
def HasFourDigitYears (w : Window) : Prop :=
  (∀ t ∈ w.start, t.HasFourDigitYear) ∧ ∀ t ∈ w.stop, t.HasFourDigitYear

instance (w : Window) : Decidable w.HasFourDigitYears := inferInstanceAs (Decidable (_ ∧ _))

/-- The texts of a window hold the text of a time just when the window that is kept holds the time
as it is written. -/
theorem withinTexts_cut {w : Window} (hw : w.HasFourDigitYears) {t : DateTime}
    (ht : t.HasFourDigitYear) :
    withinTexts w.startText w.stopText t.columnText = w.cut.contains t.written := by
  obtain ⟨hstart, hstop⟩ := hw
  have hbegun : decide (w.startText ≤ t.columnText) =
      decide ((w.start.getD .epoch).written ≤ t.written) := by
    have hyear : (w.start.getD .epoch).HasFourDigitYear := by
      cases h : w.start with
      | none => exact DateTime.fitsColumn_epoch.2
      | some s => exact hstart s h
    unfold startText
    exact decide_eq_decide.2 (DateTime.columnText_le_iff_written hyear ht)
  have hended : w.stopText.all (t.columnText < ·) =
      (w.stop.map DateTime.written).all (t.written < ·) := by
    unfold stopText
    cases h : w.stop with
    | none => rfl
    | some s =>
      simp only [Option.map_some, Option.all_some,
        DateTime.columnText_lt_iff_written ht (hstop s h)]
  unfold withinTexts contains cut
  rw [hbegun, hended, Option.all_some]

/-- The bounds of the window fit a column. -/
def FitsColumn (w : Window) : Prop :=
  (∀ t ∈ w.start, t.FitsColumn) ∧ ∀ t ∈ w.stop, t.FitsColumn

instance (w : Window) : Decidable w.FitsColumn := inferInstanceAs (Decidable (_ ∧ _))

/-- What fits a column is kept, and before the epoch there is nothing to cut off. -/
theorem contains_cut {w : Window} (hw : w.FitsColumn) {t : DateTime} (hepoch : .epoch ≤ t) :
    w.cut.contains t = w.contains t := by
  obtain ⟨hstart, hstop⟩ := hw
  have hbegun : decide ((w.start.getD .epoch).written ≤ t) = w.start.all (· ≤ t) := by
    cases h : w.start with
    | none => exact decide_eq_true hepoch
    | some s => rw [Option.getD_some, (hstart s h).1, Option.all_some]
  have hended : (w.stop.map DateTime.written).all (t < ·) = w.stop.all (t < ·) := by
    cases h : w.stop with
    | none => rfl
    | some s => rw [Option.map_some, (hstop s h).1]
  unfold contains cut
  rw [Option.all_some, hbegun, hended]

/-- The texts of a window hold the text of a time just when the window holds the time. A window
without a start begins at the epoch. -/
theorem withinTexts_eq {w : Window} (hw : w.FitsColumn) {t : DateTime} (ht : t.FitsColumn)
    (hepoch : .epoch ≤ t) :
    withinTexts w.startText w.stopText t.columnText = w.contains t := by
  have hyears : w.HasFourDigitYears := ⟨fun s hs => (hw.1 s hs).2, fun s hs => (hw.2 s hs).2⟩
  rw [withinTexts_cut hyears ht.2, ht.1, contains_cut hw hepoch]

/-- The window that is read off the texts. -/
def stored (w : Window) : Window := ⟨readColumn? w.startText, w.stopText.bind readColumn?⟩

/-- The texts of a window give back what is kept of it. -/
theorem stored_eq_cut (w : Window) : w.stored = w.cut := by
  have hstop : w.stopText.bind readColumn? = w.stop.map DateTime.written := by
    unfold stopText
    cases w.stop with
    | none => rfl
    | some t => simp only [Option.map_some, Option.bind_some, DateTime.readColumn?_columnText]
  unfold stored cut startText
  rw [hstop, DateTime.readColumn?_columnText]

end Window

/-! ## Reading what was written -/

/-- The product that its row gives back. -/
def Product.stored (p : Product) : Product :=
  { p with
    width := storedFloat? p.width
    height := storedFloat? p.height
    depth := storedFloat? p.depth }

theorem ProductKind.ofKeyword_keyword (k : ProductKind) : ofKeyword k.keyword = k := by
  cases k <;> decide +kernel

theorem ProductRow.read_ofProduct (p : Product) : (ofProduct p).read = .ok p.stored := by
  unfold read ofProduct
  simp only [Cell.readReal?_ofFloat?, ProductKind.ofKeyword_keyword]
  obtain ⟨id, name, kind, isVirtual, facility, width, height, depth⟩ := p
  cases isVirtual <;> rfl

/-- The edge that its row gives back. -/
def Edge.stored (e : Edge) : Edge :=
  { e with
    quantity := e.quantity.filter Float.isFinite
    scrap := storedFloat? e.scrap
    window := e.window.stored }

theorem AssociationRow.readEdge_ofEdge (e : Edge) : (ofEdge e).readEdge = .ok e.stored := by
  unfold readEdge ofEdge
  simp only [Cell.readReal?_ofFloat?, bind_readFinite_map_floatText]
  rfl

/-- The rule that its row gives back. -/
def Rule.stored (r : Rule) : Rule :=
  { r with quantity := storedFloat? r.quantity, window := r.window.stored }

/-- A quantity that is kept as nothing takes no effect, and neither does a zero. -/
theorem Rule.quantityOr_stored (r : Rule) : r.stored.quantityOr = r.quantityOr := by
  funext q
  rw [Rule.quantityOr_eq, Rule.quantityOr_eq]
  refine storedFloat_elim (f := fun own => (own.filter (· > 0.0)).getD q) (fun y hy => ?_) ?_
    r.quantity
  · rw [Option.filter_some, if_neg (by simpa using not_pos_of_isNaN hy)]
    rfl
  · have hnegative : ¬ (-0.0 : Float) > 0.0 := by decide +kernel
    have hpositive : ¬ (0.0 : Float) > 0.0 := by decide +kernel
    rw [Option.filter_some, Option.filter_some, if_neg (by simpa using hnegative),
      if_neg (by simpa using hpositive)]

theorem RuleOperator.ofKeyword_keyword (o : RuleOperator) : ofKeyword? o.keyword = some o := by
  cases o <;> decide +kernel

theorem RuleRow.read_ofRule (r : Rule) : (ofRule r).read = .ok r.stored := by
  have hoperator : (r.operator.map RuleOperator.keyword).bind RuleOperator.ofKeyword? =
      r.operator := by
    cases r.operator with
    | none => rfl
    | some o => rw [Option.map_some, Option.bind_some, RuleOperator.ofKeyword_keyword]
  unfold read ofRule
  simp only [Cell.readReal?_ofFloat?, hoperator]
  rfl

/-! ## The rendition -/

namespace Rendition

/-- What the rows give back: products, edges and rules up to what a column of doubles makes of a
double, without quantities of edges that are not finite, and with the windows that are kept. -/
def stored : Rendition := ⟨Product.stored, Edge.stored, Rule.stored⟩

/-- The engine sees nothing of what a database changes. -/
theorem stored_isFaithful : stored.IsFaithful where
  id _ := rfl
  kind _ := rfl
  isVirtual _ := rfl
  parent _ := rfl
  child _ := rfl
  sequence _ := rfl
  multiplier e := quantityMultiplier_filter e.quantity
  scrap e := scrapMultiplier_stored e.scrap
  substitute _ := rfl
  condition _ := rfl
  operator _ := rfl
  priority _ := rfl
  quantityOr r := r.quantityOr_stored

end Rendition

end Bom
