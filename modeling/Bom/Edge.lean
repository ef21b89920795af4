import Bom.Calendar.DateTime
import Bom.Notice
import Bom.Text.Blank

/-!
# Edges of the bill of materials

An edge says that a parent product has a child product as a component, in a quantity per unit and
with some scrap. It belongs to one type of bill, may belong to one routing, and is valid for a
while.

* `Window`: a stretch of time, its start included and its end excluded.
* `Edge.matchesRouting`: an edge without a routing belongs to the generic bill and to no routing.
* `quantityMultiplier`, `scrapMultiplier`: the usable numbers behind the stored ones. A missing
  quantity or a number that cannot be used counts as 1 and is worth a notice.
-/

namespace Bom

/-- A stretch of time. A missing bound leaves that side open. -/
structure Window where
  start : Option DateTime
  stop : Option DateTime
  deriving DecidableEq

/-- The instant lies in the window: not before its start, and before its end. -/
def Window.contains (w : Window) (t : DateTime) : Bool :=
  w.start.all (· ≤ t) && w.stop.all (t < ·)

/-- The type of bill that is exploded when no other is named. -/
def defaultBomType : String := "MANUF_COMPONENT"

/-- A component line of a bill of materials. -/
structure Edge where
  parent : String
  child : String
  bomType : String
  /-- units of the child per unit of the parent -/
  quantity : Option Float
  /-- scrap in per cent; a negative value is material won back -/
  scrap : Option Float
  sequence : Int
  routing : Option String
  window : Window
  /-- the name of a calculation that takes the place of the product of quantities -/
  calcMethod : Option String
  deriving DecidableEq

namespace Edge

/-- The edge belongs to the given routing, or to the generic bill when none is given. -/
def matchesRouting (e : Edge) (routing : Option String) : Bool :=
  e.routing = routing

/-- The edge is valid at the given time. -/
def validAt (e : Edge) (t : DateTime) : Bool := e.window.contains t

/-- The calculation that the edge names, a blank name being none. -/
def calculation (e : Edge) : Option String :=
  e.calcMethod.filter fun m => !Text.isBlankText m

end Edge

/-- A scrap percentage that can be used: finite, and strictly between -100 and 100. -/
def usableScrap (percent : Float) : Bool :=
  percent.isFinite && percent > -100.0 && percent < 100.0

/-- The factor that a scrap percentage adds, 1 if the percentage is missing or cannot be used. -/
def scrapMultiplier : Option Float → Float
  | some percent => if usableScrap percent then 1.0 + percent / 100.0 else 1.0
  | none => 1.0

/-- What a scrap percentage gives notice of: a value that cannot be used. A missing one is in order.
-/
def scrapNotices (percent : Option Float) : List Notice :=
  if percent.all usableScrap then [] else [.scrapOutOfRange]

/-- The units of a component per unit of its parent, 1 if the quantity is missing or not finite. -/
def quantityMultiplier : Option Float → Float
  | some q => if q.isFinite then q else 1.0
  | none => 1.0

/-- What a quantity gives notice of: a missing value or one that is not finite. -/
def quantityNotices (quantity : Option Float) : List Notice :=
  if quantity.any Float.isFinite then [] else [.quantityUnusable]

end Bom
