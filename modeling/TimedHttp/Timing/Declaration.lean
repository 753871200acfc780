import TimedHttp.Metric.Timer

/-!
# Timing declarations

A route may declare how it is timed, any number of times; each declaration yields its own timer.
One disabled declaration switches timing off for the route.
-/

namespace TimedHttp

/-- **Timing declaration** of a route. -/
structure Declaration where
  enabled : Bool := true
  /-- the name of the timer, if it is not that of the layer -/
  name : Option String := none
  /-- tags written over those of the exchange -/
  tags : Tags := .empty
  description : Option String := none
  deriving DecidableEq

/-- The timer of one declaration. -/
def Declaration.timer (d : Declaration) (metric : String) (tags : Tags) : Timer :=
  ((Timer.named (d.name.getD metric)).withTags tags).withTags d.tags
    |>.withDescription d.description

/-- The timers of an exchange with the given tags. Without declarations there is one under the name
of the metric if routes are timed by default; otherwise there is one for each declaration, unless
one of them is disabled. -/
def timersOf (byDefault : Bool) (metric : String) (declarations : List Declaration)
    (tags : Tags) : List Timer :=
  if declarations = [] then
    if byDefault then [(Timer.named metric).withTags tags] else []
  else if declarations.any fun d => !d.enabled then []
  else declarations.map fun d => d.timer metric tags

end TimedHttp
