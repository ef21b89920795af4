import Bom.Edge

/-!
# Settings

What the engine falls back on when a request leaves something open.
-/

namespace Bom

/-- The settings of the engine. -/
structure Settings where
  /-- the type of bill when a request names none -/
  bomType : String
  /-- the facility when neither a request nor a product names one -/
  facility : Option String
  /-- the lead time in days when no facility states one -/
  leadTime : Float
  /-- how many levels a tree may have -/
  maxDepth : Nat
  /-- net requirements pass over work in process unless a request decides -/
  excludesWip : Bool
  deriving DecidableEq

/-- The settings when nothing is set. -/
def Settings.standard : Settings :=
  ⟨defaultBomType, none, 0.0, 64, false⟩

end Bom
