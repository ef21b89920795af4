import Bom.Calendar.DateTime
import Bom.Decimal.Shortest

/-!
# Spans of days

Lead times are given in days, as doubles. A span is rounded to whole seconds, and what is not finite
is no span at all. Spans and instants are bounded, and a lead time may lead out of either.

* `spanSeconds?`: the seconds of a span of days.
* `DateTime.after?`, `DateTime.before?`: the instant a span later or earlier.
-/

namespace Bom

/-- The greatest number of seconds, forward or back, that a span may have. -/
def maxSpanSeconds : Int := 9223372036854775

/-- The whole seconds of a span of days, a half second going away from zero. Not-a-number and the
infinities count as no days. None if the span is too long. -/
def spanSeconds? (days : Float) : Option Int :=
  if days.isFinite then
    match nearestInt? (days * 86400.0) with
    | some s => if -maxSpanSeconds ≤ s ∧ s ≤ maxSpanSeconds then some s else none
    | none => none
  else some 0

namespace DateTime

/-- The instant the given days later. -/
def after? (t : DateTime) (days : Float) : Option DateTime :=
  (spanSeconds? days).bind t.shift?

/-- The instant the given days earlier. -/
def before? (t : DateTime) (days : Float) : Option DateTime :=
  (spanSeconds? days).bind fun s => t.shift? (-s)

end DateTime

end Bom
