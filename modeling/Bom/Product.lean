import Bom.Text.Keyword

/-!
# Products and their features

A product is a good, a raw material, a subassembly or work in process. A virtual product stands for
a family: a rule or the selected features decide which member takes its place. Its members, the
variants, are told apart by features such as a colour or a size.

* `ProductKind.ofKeyword`: the kind that a keyword names, in any case; other texts name a good.
* `matchingVariants`: the variants that a selection of features leaves.
-/

namespace Bom

/-- What a product is to the stock room. Work in process is never stocked on its own. -/
inductive ProductKind where
  | good
  | finishedGood
  | rawMaterial
  | subassembly
  | workInProcess
  deriving DecidableEq, Repr

namespace ProductKind

/-- The keyword of a kind. -/
def keyword : ProductKind → String
  | good => "GOOD"
  | finishedGood => "FINISHED_GOOD"
  | rawMaterial => "RAW_MATERIAL"
  | subassembly => "SUBASSEMBLY"
  | workInProcess => "WIP"

/-- All kinds. -/
def all : List ProductKind := [good, finishedGood, rawMaterial, subassembly, workInProcess]

/-- The kind that a text names, with blanks around it and in any case. Other texts name a good. -/
def ofKeyword (s : String) : ProductKind :=
  (all.find? (·.keyword == Text.capitals s)).getD good

end ProductKind

/-- A product of the catalogue. -/
structure Product where
  id : String
  name : Option String
  kind : ProductKind
  isVirtual : Bool
  /-- the facility that makes the product unless an order names another -/
  facility : Option String
  width : Option Float
  height : Option Float
  depth : Option Float
  deriving DecidableEq

namespace Product

/-- Holds of work in process. -/
def isWip (p : Product) : Bool := p.kind = .workInProcess

end Product

/-- One value of a feature, such as a red of the kind colour. -/
structure Feature where
  id : String
  kind : String
  deriving DecidableEq, Repr

/-- A variant of a virtual product with the features that set it apart. -/
structure Variant where
  product : String
  features : List Feature
  deriving DecidableEq, Repr

/-- The selected features whose kind sets some variant apart. -/
def relevantFeatures (variants : List Variant) (selected : List Feature) : List Feature :=
  selected.filter fun s => variants.any fun v => v.features.any fun f => f.kind = s.kind

/-- The variant has every one of the given features. -/
def Variant.hasAll (v : Variant) (features : List Feature) : Bool :=
  features.all fun s => v.features.any fun f => f.id = s.id

/-- The positions of the variants that have all selected features of the kinds that set variants
apart. There are none when no selected feature is of such a kind. -/
def matchingVariants (variants : List Variant) (selected : List Feature) : List Nat :=
  let relevant := relevantFeatures variants selected
  if relevant.isEmpty then []
  else (variants.zipIdx.filter fun (v, _) => v.hasAll relevant).map Prod.snd

end Bom
