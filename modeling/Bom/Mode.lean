/-!
# Ways to unfold a bill of materials

A bill is exploded towards the components or imploded towards the products that use them. An
explosion goes all the way down, or one level, or down to what a warehouse keeps in stock.
-/

namespace Bom

/-- How a bill of materials is unfolded. -/
inductive Mode where
  /-- components at every level -/
  | explosion
  /-- the components of the first level -/
  | singleLevel
  /-- components at every level, but nothing below a product that is kept in stock -/
  | manufacturing
  /-- the products that use the product, at every level -/
  | implosion
  deriving DecidableEq, Repr

namespace Mode

/-- The name of a mode. -/
def keyword : Mode → String
  | explosion => "EXPLOSION"
  | singleLevel => "EXPLOSION_SINGLE_LEVEL"
  | manufacturing => "EXPLOSION_MANUFACTURING"
  | implosion => "IMPLOSION"

/-- All modes. -/
def all : List Mode := [explosion, singleLevel, manufacturing, implosion]

/-- The mode with the given name, spelt exactly. -/
def ofKeyword? (s : String) : Option Mode :=
  all.find? (·.keyword == s)

/-- Holds of the modes that go towards the components. -/
def isExplosion (m : Mode) : Bool := m ≠ .implosion

end Mode

end Bom
