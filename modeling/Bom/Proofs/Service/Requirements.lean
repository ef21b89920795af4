import Bom.Proofs.Service.Build
import Bom.Proofs.Service.Make
import Bom.Proofs.Tree.Totals

/-!
# All that goes into a product

The service adds up the quantities of the full explosion, less the first number that the quantity
pass has gone through. The pass begins at the root, so what is added up are the quantities at the
parts: the nodes below the root, without work in process and all below it if that is left out
(`Service.netRequirements_eq_ok`). Leaving out the root leaves out the product that is made, since
in an explosion no product occurs below itself (`Built.root_ne_of_mem_lower`).
-/

namespace Bom

/-! ## Below the root -/

theorem Lineage.uncounted_product_id (l : Lineage) :
    l.uncounted.node.self.product.id = l.node.self.product.id := by
  change l.node.uncounted.self.product.id = _
  rw [l.node.uncounted_self]
  rfl

namespace Tree

variable {t u : Tree}

/-- The root stands above every node below it. -/
theorem root_mem_above {l : Lineage} (hl : l ∈ t.lower) : t.root ∈ l.above :=
  (Slots.suffix_of_mem_lineages hl).subset List.mem_cons_self

/-- The ways to the parts of the product at the root: to all nodes below the root, or, if work in
process is left out, to those with none of it between the root and the node, the node included. -/
def parts (t : Tree) (excludesWip : Bool) : List Lineage :=
  t.lower.filter fun l =>
    !(excludesWip && (l.node :: l.above).dropLast.any (·.self.product.isWip))

/-- A pass goes through the root and the parts. -/
theorem filter_visits (t : Tree) (p : Pass) :
    t.lineages.filter p.visits = ⟨t.root, []⟩ :: t.parts p.excludesWip := by
  rw [t.lineages_eq, List.filter_cons_of_pos (p.visits_root t.root)]
  rfl

/-- Trees with the same places have the same parts, but for what is left over. -/
theorem Agrees.map_parts (h : t.Agrees u) {β : Type} {g : Lineage → β}
    (hg : ∀ l, g l.uncounted = g l) (excludesWip : Bool) :
    (u.parts excludesWip).map g = (t.parts excludesWip).map g := by
  have hsame := h.filter_lineages (Pass.visits_uncounted (p := u.passOf none excludesWip)) hg
  rw [filter_visits, filter_visits, List.map_cons, List.map_cons] at hsame
  exact (List.cons_eq_cons.1 hsame).2

end Tree

/-- The product at the root of an explosion occurs nowhere below it. -/
theorem Built.root_ne_of_mem_lower {c : Catalogue} {maxDepth : Nat} {r : TreeRequest} {t : Tree}
    (h : Built c maxDepth r t) (hmode : r.mode = .explosion) {l : Lineage} (hl : l ∈ t.lower) :
    l.node.self.product.id ≠ t.root.self.product.id := by
  cases h.reaches l (Tree.mem_lineages_of_mem_lower hl) with
  | left hleft _ =>
    -- an explosion descends to every node
    unfold Unfolding.descends at hleft
    rw [show (t.unfolding c maxDepth).mode = .explosion from h.mode.trans hmode] at hleft
    cases hleft
  | expanded hexpand hids hnodup hroom _ =>
    have hway := (hexpand.productIds_nodup hids hnodup hroom).1
    rw [Lineage.productIds, List.map_cons, List.nodup_cons] at hway
    intro heq
    refine hway.1 ?_
    rw [heq]
    exact List.mem_map_of_mem (Tree.root_mem_above hl)

/-! ## What the service adds up -/

namespace Service

variable {σ : Type} {v : Service σ}

/-- Where the service has counted an explosion, the numbers after the first lead to what occurs at
the parts. -/
theorem sumOver_of_count {product : String} {quantity : Float} {asOf : Option DateTime}
    {routing : Option String} {excludesWip : Bool} {t u : Tree} {numbers : List Nat}
    (ht : (v.explode product .explosion asOf routing).outcome = .ok t)
    (hu : (v.count { t with rootQuantity := quantity } excludesWip).outcome = .ok (u, numbers)) :
    u.sumOver (numbers.drop 1) =
      Totals.ofOccurrences ((u.parts excludesWip).map (·.node.self)) := by
  obtain ⟨-, hbuilt⟩ := explode_eq_ok.1 ht
  obtain ⟨hpass, rfl⟩ := count_eq_ok.1 hu
  have hnumbered : Tree.Numbered { t with rootQuantity := quantity } :=
    (built_of_buildTree hbuilt).numbers_table
  rw [Tree.numbers_of_pass hpass, Tree.filter_visits, List.map_cons, List.drop_one, List.tail_cons]
  exact ((Tree.agrees_flatten _ _ _ _).numbered hnumbered).sumOver_map fun l hl =>
    Tree.mem_lineages_of_mem_lower (List.mem_filter.1 hl).1

/-- The service explodes the product, counts the tree, and adds up the quantities at the parts. -/
theorem netRequirements_eq_ok {product : String} {quantity : Float} {asOf : Option DateTime}
    {routing : Option String} {excludesWip : Option Bool} {totals : Totals} :
    (v.netRequirements product quantity asOf routing excludesWip).outcome = .ok totals ↔
      checkQuantity "quantity" quantity = .ok () ∧ ∃ t u numbers,
        (v.explode product .explosion asOf routing).outcome = .ok t ∧
        (v.count { t with rootQuantity := quantity }
          (excludesWip.getD v.settings.excludesWip)).outcome = .ok (u, numbers) ∧
        Totals.ofOccurrences
          ((u.parts (excludesWip.getD v.settings.excludesWip)).map (·.node.self)) = totals := by
  unfold netRequirements
  rw [Noted.outcome_bind_eq_ok]
  constructor
  · rintro ⟨_, hquantity, h⟩
    obtain ⟨t, ht, h⟩ := Noted.outcome_bind_eq_ok.1 h
    obtain ⟨⟨u, numbers⟩, hu, h⟩ := Noted.outcome_bind_eq_ok.1 h
    refine ⟨hquantity, t, u, numbers, ht, hu, ?_⟩
    rw [← sumOver_of_count ht hu]
    exact pure_eq_ok.1 h
  · rintro ⟨hquantity, t, u, numbers, ht, hu, rfl⟩
    refine ⟨(), hquantity, Noted.outcome_bind_eq_ok.2 ⟨t, ht, ?_⟩⟩
    refine Noted.outcome_bind_eq_ok.2 ⟨(u, numbers), hu, ?_⟩
    rw [← sumOver_of_count ht hu]
    rfl

end Service

/-- The service tells of each product that goes into another, and of no other, what its quantities
come to. These are the products of the parts in the full explosion, the product at the root is never
among them, and their quantities are those that the pass has given to the parts, added in pre-order.
-/
theorem requirements_of_parts {σ : Type} (v : Service σ) (product : String) (quantity : Float)
    (asOf : Option DateTime) (routing : Option String) (excludesWip : Option Bool)
    (totals : Totals)
    (h : (v.netRequirements product quantity asOf routing excludesWip).outcome = .ok totals) :
    let excludes := excludesWip.getD v.settings.excludesWip
    ∃ t u numbers, (v.explode product .explosion asOf routing).outcome = .ok t ∧
      (v.count { t with rootQuantity := quantity } excludes).outcome = .ok (u, numbers) ∧
      totals.Ascending ∧
      (∀ id, id ∈ totals.map Prod.fst ↔ ∃ l ∈ t.parts excludes, l.node.self.product.id = id) ∧
      t.root.self.product.id ∉ totals.map Prod.fst ∧
      ∀ id, totals.lookup id =
        Totals.entry (Totals.quantitiesOf id ((u.parts excludes).map (·.node.self))) := by
  intro excludes
  obtain ⟨-, t, u, numbers, ht, hu, rfl⟩ := Service.netRequirements_eq_ok.1 h
  have hagrees : t.Agrees u := by
    obtain ⟨-, rfl⟩ := Service.count_eq_ok.1 hu
    exact t.agrees_after [.setQuantity quantity, .flatten 0 excludes v.calculator]
  have hkeys (id : String) : id ∈ (Totals.ofOccurrences ((u.parts excludes).map
      (·.node.self))).map Prod.fst ↔ ∃ l ∈ t.parts excludes, l.node.self.product.id = id := by
    have hsame := hagrees.map_parts (g := (·.node.self.product.id)) Lineage.uncounted_product_id
      excludes
    rw [Totals.mem_map_fst_ofOccurrences, List.map_map, Function.comp_def, hsame, List.mem_map]
  refine ⟨t, u, numbers, ht, hu, Totals.ascending_ofOccurrences _, hkeys, ?_,
    fun id => Totals.lookup_ofOccurrences id _⟩
  rw [hkeys]
  rintro ⟨l, hl, hroot⟩
  obtain ⟨-, hbuilt⟩ := Service.explode_eq_ok.1 ht
  exact (built_of_buildTree hbuilt).root_ne_of_mem_lower rfl (List.mem_filter.1 hl).1 hroot

/-- All that goes into two bicycles is a steel frame and a tube for each. -/
theorem bicycle_requirements :
    let v := Service.sample MemoryCatalogue.bicycles
    ∃ totals, (v.netRequirements "bicycle" 2.0 none none none).outcome = .ok totals ∧
      totals = [("steel frame", 2.0), ("tube", 2.0)] ∧
      ∃ t u numbers, (v.explode "bicycle" .explosion none none).outcome = .ok t ∧
        (v.count { t with rootQuantity := 2.0 } false).outcome = .ok (u, numbers) ∧
        (∀ id, id ∈ totals.map Prod.fst ↔ ∃ l ∈ t.parts false, l.node.self.product.id = id) ∧
        t.root.self.product.id ∉ totals.map Prod.fst ∧
        ∀ id, totals.lookup id =
          Totals.entry (Totals.quantitiesOf id ((u.parts false).map (·.node.self))) := by
  intro v
  have htotals : (v.netRequirements "bicycle" 2.0 none none none).outcome.toOption.any
      (· = [("steel frame", 2.0), ("tube", 2.0)]) = true := by
    decide +kernel
  obtain ⟨totals, h, htotals⟩ := exists_of_any htotals
  obtain ⟨t, u, numbers, ht, hu, -, hkeys, hroot, hlookup⟩ :=
    requirements_of_parts v "bicycle" 2.0 none none none totals h
  exact ⟨totals, h, of_decide_eq_true htotals, t, u, numbers, ht, hu, hkeys, hroot, hlookup⟩

end Bom
