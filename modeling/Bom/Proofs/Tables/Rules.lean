import Mathlib.Data.List.Perm.Basic
import Bom.Proofs.Tables.Edges

/-!
# Rules in a table

A rule that is put into a table takes the place of the one with its id and goes to the end. So after
any number of calls the table holds `latest`, the rules without those of which a later version was
put, in the order of the calls (`Tables.HoldsRules.put`). A search gives those of them that its
scope covers and whose windows, as they are written, hold the time as it is written
(`Database.rules_putRules`).

The order is that of the numbers of rows. It lasts as long as the numbers do, which is longer than
any run of calls; what is found does not depend on it.
-/

namespace Bom

/-! ## The last versions of rules -/

/-- The rules of which no later version is in the list. -/
def latest : List Rule → List Rule
  | [] => []
  | r :: rs => if rs.any (·.id = r.id) then latest rs else r :: latest rs

/-- One more rule takes the place of the one with its id. -/
theorem latest_concat (rs : List Rule) (r : Rule) :
    latest (rs ++ [r]) = putBy Rule.id r (latest rs) := by
  induction rs with
  | nil => rfl
  | cons s rs ih =>
    simp only [List.cons_append, latest, List.any_append, ih]
    by_cases hlater : rs.any (·.id = s.id) = true
    · simp [hlater]
    · by_cases hsame : r.id = s.id
      · simp [hlater, hsame, putBy]
      · simp [hlater, hsame, putBy, Ne.symm hsame]

theorem mem_of_mem_latest {r : Rule} : ∀ {rs : List Rule}, r ∈ latest rs → r ∈ rs
  | s :: rs, h => by
    unfold latest at h
    split at h
    · exact .tail s (mem_of_mem_latest h)
    · rcases List.mem_cons.1 h with rfl | h
      · exact .head rs
      · exact .tail s (mem_of_mem_latest h)

/-- At most one version of a rule is the last one. -/
theorem nodup_latest : ∀ rs : List Rule, ((latest rs).map Rule.id).Nodup
  | [] => .nil
  | r :: rs => by
    unfold latest
    split
    · exact nodup_latest rs
    next hlast =>
      refine List.nodup_cons.2 ⟨fun hmem => hlast ?_, nodup_latest rs⟩
      obtain ⟨s, hs, hid⟩ := List.mem_map.1 hmem
      exact List.any_eq_true.2 ⟨s, mem_of_mem_latest hs, decide_eq_true hid⟩

/-! ## The rows of rules -/

/-- Where the rules are those of a list, a search goes through this list. -/
theorem Tables.rulesIn_of_rows {t : Tables} {rs : List Rule}
    (h : t.rules.rows = rs.map RuleRow.ofRule) (scope : RuleScope) (asOf : DateTime) :
    t.rulesIn scope asOf =
      .ok ((rs.filter fun r => scope.covers r &&
        withinTexts r.window.startText r.window.stopText asOf.columnText).map Rule.stored) := by
  have hfilter : (fun row : RuleRow => row.isIn scope &&
      withinTexts row.start row.stop asOf.columnText) ∘ RuleRow.ofRule =
      fun r => scope.covers r &&
        withinTexts r.window.startText r.window.stopText asOf.columnText := by
    cases scope <;> rfl
  unfold rulesIn
  rw [h, List.filter_map, hfilter, mapM_map_eq_ok RuleRow.read_ofRule]

namespace Rule

/-- What a table keeps of a rule: all of it, but for a quantity that is not a number, the sign of a
quantity of zero, and what is lost by writing the window. -/
structure IsKeptAs (r kept : Rule) : Prop where
  id : kept.id = r.id
  context : kept.context = r.context
  parent : kept.parent = r.parent
  component : kept.component = r.component
  substitute : kept.substitute = r.substitute
  condition : kept.condition = r.condition
  operator : kept.operator = r.operator
  quantity : IsKeptInColumn r.quantity kept.quantity
  sequence : kept.sequence = r.sequence
  window : kept.window = r.window.cut

theorem isKeptAs_stored (r : Rule) : r.IsKeptAs r.stored where
  id := rfl
  context := rfl
  parent := rfl
  component := rfl
  substitute := rfl
  condition := rfl
  operator := rfl
  quantity := isKeptInColumn_stored r.quantity
  sequence := rfl
  window := r.window.stored_eq_cut

/-- A search asks for the rule: its scope covers the rule, and the window that is kept of the rule
holds the time as it is written. -/
def isAsked (scope : RuleScope) (asOf : DateTime) (r : Rule) : Bool :=
  scope.covers r && r.window.cut.contains asOf.written

end Rule

/-! ## Putting rules -/

/-- The rules are the last versions of the given ones, in their order and under numbers up to their
count as long as there are numbers. -/
structure Tables.HoldsRules (t : Tables) (rs : List Rule) : Prop where
  perm : t.rules.rows.Perm ((latest rs).map RuleRow.ofRule)
  rows : (rs.length : Int) ≤ maxWord → t.rules.rows = (latest rs).map RuleRow.ofRule
  numbers : (rs.length : Int) ≤ maxWord → ∀ e ∈ t.rules.entries, e.1 ≤ rs.length

/-- The row of a rule takes the place of the one with the id of the rule. -/
theorem putBy_ofRule (r : Rule) (rs : List Rule) :
    putBy RuleRow.id (RuleRow.ofRule r) (rs.map RuleRow.ofRule) =
      (putBy Rule.id r rs).map RuleRow.ofRule := by
  have hkeys (r s : Rule) : (RuleRow.ofRule r).id = (RuleRow.ofRule s).id ↔ r.id = s.id :=
    Option.some_inj
  exact putBy_map hkeys r rs

/-- A rule that is put takes the place of its last version and goes to the end. -/
theorem Tables.HoldsRules.put {t : Tables} {rs : List Rule} (h : t.HoldsRules rs) (r : Rule) :
    (t.putRule r).HoldsRules (rs ++ [r]) := by
  have hlatest : (latest (rs ++ [r])).map RuleRow.ofRule =
      putBy RuleRow.id (RuleRow.ofRule r) ((latest rs).map RuleRow.ofRule) := by
    rw [putBy_ofRule, latest_concat]
  have hcount : ((rs ++ [r]).length : Int) = rs.length + 1 := by simp
  constructor
  case perm =>
    have hothers := h.perm.filter fun row => row.id ≠ (RuleRow.ofRule r).id
    rw [hlatest]
    exact (t.rules.rows_put_perm _ _).trans
      ((hothers.cons _).trans (List.perm_append_singleton _ _).symm)
  case rows =>
    intro hroom
    rw [hcount] at hroom
    have hbelow (e) (he : e ∈ t.rules.entries) : e.1 < maxWord :=
      Int.lt_of_le_of_lt (h.numbers (by omega) e he) (by omega)
    rw [hlatest, ← h.rows (by omega)]
    exact Table.rows_put _ _ hbelow
  case numbers =>
    intro hroom
    rw [hcount] at hroom ⊢
    exact Table.le_of_mem_put (h.numbers (by omega)) (by omega) (by omega)

/-- The rows are those of the last versions, in some order, and in theirs as long as there are
numbers. -/
theorem Tables.HoldsRules.exists_rows {t : Tables} {rs : List Rule} (h : t.HoldsRules rs) :
    ∃ held, t.rules.rows = held.map RuleRow.ofRule ∧ held.Perm (latest rs) ∧
      ((rs.length : Int) ≤ maxWord → held = latest rs) := by
  by_cases hroom : (rs.length : Int) ≤ maxWord
  · exact ⟨latest rs, h.rows hroom, .refl _, fun _ => rfl⟩
  · obtain ⟨held, hheld, hperm⟩ :
        Relation.Comp (· = List.map RuleRow.ofRule ·) List.Perm t.rules.rows (latest rs) := by
      rw [List.eq_map_comp_perm]
      exact h.perm
    exact ⟨held, hheld, hperm, fun hfits => absurd hfits hroom⟩

namespace Database

/-- The database after rules have been put one after the other. -/
def putRules (db : Database) (rs : List Rule) : Database :=
  rs.foldl (fun db r => (db.putRule r).1) db

/-- After any number of calls the rules are the last versions of those that were put. -/
theorem putRules_holds {t : Tables} {rs : List Rule} (h : t.HoldsRules rs) (more : List Rule) :
    ∃ t', putRules ⟨some t⟩ more = ⟨some t'⟩ ∧ t'.HoldsRules (rs ++ more) := by
  induction more generalizing t rs with
  | nil => exact ⟨t, rfl, by rwa [List.append_nil]⟩
  | cons r more ih =>
    obtain ⟨t', hmore, h'⟩ := ih (h.put r)
    rw [List.append_assoc, List.singleton_append] at h'
    exact ⟨t', hmore, h'⟩

/-- Rules are put into a table without rules, one after the other, and none is refused. A search at
any time then finds just the rules that it asks for among the last versions, no two of one id, in
the order in which these versions were put. -/
theorem rules_putRules {t : Tables} (hempty : t.rules.rows = []) {rs : List Rule}
    (hrs : ∀ r ∈ rs, r.window.HasFourDigitYears) (now : DateTime) (scope : RuleScope)
    {asOf : DateTime} (hasOf : asOf.HasFourDigitYear) :
    let db := putRules ⟨some t⟩ rs
    (∀ r, (db.putRule r).2 = .ok ()) ∧
      ∃ asked found, (db.catalogue now).rules scope asOf = .ok found ∧
        asked.Perm ((latest rs).filter (Rule.isAsked scope asOf)) ∧
        ((rs.length : Int) ≤ maxWord → asked = (latest rs).filter (Rule.isAsked scope asOf)) ∧
        (found.map Rule.id).Nodup ∧ List.Forall₂ Rule.IsKeptAs asked found := by
  intro db
  have hnone : t.HoldsRules [] := by
    refine ⟨by rw [hempty]; exact .refl _, fun _ => hempty, fun _ e he => ?_⟩
    rw [List.map_eq_nil_iff.1 hempty] at he
    cases he
  obtain ⟨t', hdb, h⟩ := putRules_holds hnone rs
  have hdb : db = ⟨some t'⟩ := hdb
  rw [List.nil_append] at h
  obtain ⟨held, hrows, hperm, horder⟩ := h.exists_rows
  rw [hdb]
  refine ⟨fun _ => rfl, held.filter (Rule.isAsked scope asOf),
    (held.filter (Rule.isAsked scope asOf)).map Rule.stored, ?_, hperm.filter _,
    fun hroom => by rw [horder hroom], ?_,
    List.forall₂_map_right_iff.2 (List.forall₂_same.2 fun r _ => r.isKeptAs_stored)⟩
  · have hfilter : held.filter (fun r => scope.covers r &&
        withinTexts r.window.startText r.window.stopText asOf.columnText) =
        held.filter (Rule.isAsked scope asOf) :=
      List.filter_congr fun r hr => by
        rw [Window.withinTexts_cut (hrs r (mem_of_mem_latest (hperm.subset hr))) hasOf]
        rfl
    change (t'.rulesIn scope asOf).mapError _ = _
    rw [Tables.rulesIn_of_rows hrows, hfilter]
    rfl
  · have hids : (held.map Rule.id).Nodup := (hperm.map Rule.id).nodup_iff.2 (nodup_latest rs)
    rw [List.map_map]
    exact (List.filter_sublist.map Rule.id).nodup hids

end Database

/-- A rule about a frame, in the bill of one product if there is one. -/
def Rule.ofFrame (id : String) (parent : Option String) (quantity : Option Float) : Rule :=
  ⟨id, none, parent, "frame", some "steel frame", none, some .or, quantity, 0, ⟨none, none⟩⟩

/-- Rules about a frame. The first one is put again with a quantity that is not a number, and the
third one for the frame of a bicycle. -/
def frameRules : List Rule :=
  [.ofFrame "steel" none (some 2.0), .ofFrame "alloy" none none, .ofFrame "carbon" none none,
    .ofFrame "steel" none (some notANumber), .ofFrame "carbon" (some "bicycle") none]

/-- The rule that is put again has moved to the end, and the one that is put for the bicycle is none
for all frames any more. -/
theorem frame_rules_found :
    let db := Database.putRules ⟨some .empty⟩ frameRules
    ∃ found, (db.catalogue .epoch).rules (.node "frame") .epoch = .ok found ∧
      found.map (fun r => (r.id, r.quantity)) = [("alloy", none), ("steel", none)] := by
  intro db
  have hempty : Tables.empty.rules.rows = [] := rfl
  have hyears : ∀ r ∈ frameRules, r.window.HasFourDigitYears := by decide +kernel
  obtain ⟨-, -, found, hfound, -⟩ := Database.rules_putRules hempty hyears .epoch (.node "frame")
    DateTime.fitsColumn_epoch.2
  refine ⟨found, hfound, ?_⟩
  have hread : ((db.catalogue .epoch).rules (.node "frame") .epoch).map
      (List.map fun r => (r.id, r.quantity)) = .ok [("alloy", none), ("steel", none)] := by
    decide +kernel
  rw [hfound] at hread
  exact Except.ok.inj hread

/-- A rule that begins after a leap second which ends no minute is found in this leap second. Its
quantity is not a number, and it is found without one. Where there are no tables, a search fails. -/
theorem frame_rule_found_early :
    let rule : Rule :=
      { Rule.ofFrame "steel" none (some notANumber) with window := ⟨some .afterOddLeap, none⟩ }
    let db := Database.putRules ⟨some .empty⟩ [rule]
    ((db.catalogue .epoch).rules (.node "frame") .oddLeapSecond).map
        (List.map fun r => (r.id, r.quantity)) = .ok [("steel", none)] ∧
      ¬ DateTime.afterOddLeap.truncate ≤ DateTime.oddLeapSecond.truncate ∧
      rule.quantity.isSome = true ∧
      ((Database.empty.catalogue .epoch).rules (.node "frame") .epoch).map List.length =
        .error (TableFault.noTable "manufacturing_rule").toStoreError := by
  decide +kernel

end Bom
