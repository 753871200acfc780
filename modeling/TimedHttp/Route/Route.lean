import TimedHttp.Work
import TimedHttp.Timing.Declaration

/-!
# Routes

A route binds a method and a path pattern to a handler, under a name and with the declarations how
it is timed.
-/

namespace TimedHttp

/-- **Route**. -/
structure Route (σ : Type) where
  method : Method
  pattern : String
  name : String
  handler : Handler σ
  declarations : List Declaration := []

namespace Route

variable {σ : Type}

/-- The route of a handler whose type has the given name; the route is named after it. -/
def ofHandler (method : Method) (pattern typeName : String) (handler : Handler σ) : Route σ :=
  { method, pattern, name := Text.memberName typeName, handler }

/-- Gives the route another name. -/
def rename (r : Route σ) (name : String) : Route σ := { r with name }

/-- Adds a timing declaration. -/
def timed (r : Route σ) (d : Declaration) : Route σ :=
  { r with declarations := r.declarations ++ [d] }

end Route

end TimedHttp
