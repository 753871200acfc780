import TimedHttp.Route.Route
import TimedHttp.Route.Search
import TimedHttp.SortedMap

/-!
# Route tables

A table holds routes in the order in which they were registered. Routes of different methods have
nothing to do with each other: a pattern is checked against those of its own method, and a request
is matched with them only.
-/

namespace TimedHttp

/-- **Registration error**: the pattern of a route cannot be registered. -/
structure RegistrationError where
  pattern : String
  cause : PatternError
  deriving DecidableEq

/-- The wording of a pattern error. -/
def PatternError.text : PatternError → String
  | invalidName => "Parameters must be registered with a valid name"
  | tooManyParameters => "Too many route parameters."
  | remainderNotLast => "Catch-all parameters are only allowed at the end of a route"
  | crowdedSegment => "Only one parameter is allowed per path segment"
  | clash registered =>
    "Insertion failed due to conflict with previously registered route: " ++ registered

/-- The wording of a registration error. That there are too many parameters is said as it is. -/
def RegistrationError.text (e : RegistrationError) : String :=
  match e.cause with
  | .tooManyParameters => e.cause.text
  | cause => "invalid route `" ++ e.pattern ++ "`: " ++ cause.text

/-- **Entry** of a table: a route and its pattern as read. -/
structure RouteEntry (σ : Type) where
  route : Route σ
  pattern : Pattern

/-- **Route table**. -/
abbrev RouteTable (σ : Type) := List (RouteEntry σ)

namespace RouteTable

variable {σ : Type}

/-- The entries of one method. -/
def ofMethod (table : RouteTable σ) (method : Method) : RouteTable σ :=
  table.filter fun entry => entry.route.method = method

/-- Nothing but the empty pattern is registered, which counts as nothing. -/
def isBlank (table : RouteTable σ) : Bool := table.all fun entry => entry.pattern = []

/-- The fault of a pattern with respect to the entries of its method. -/
def fault (entries : RouteTable σ) (pattern : Pattern) : Option PatternError :=
  match entries.find? fun entry => entry.pattern.clashes pattern with
  | some entry => some (.clash entry.pattern.text)
  | none => Pattern.fault false pattern

/-- Registers a route. If its method has only the empty pattern, that one is replaced. -/
def register (table : RouteTable σ) (route : Route σ) :
    Except RegistrationError (RouteTable σ) :=
  match Pattern.parse route.pattern with
  | .error cause => .error ⟨route.pattern, cause⟩
  | .ok pattern =>
    let kept : RouteTable σ :=
      if isBlank (table.ofMethod route.method) then
        table.filter fun entry => entry.route.method ≠ route.method
      else table
    match fault (kept.ofMethod route.method) pattern with
    | some cause => .error ⟨route.pattern, cause⟩
    | none => .ok (kept ++ [⟨route, pattern⟩])

/-- **Path parameters**: values under their names. -/
abbrev Params := SortedMap String String

/-- The values of placeholders under their names; of two with one name the later is kept. -/
def params (pattern : Pattern) (values : List (List Char)) : Params :=
  .ofList ((pattern.names.zip values).map fun pair =>
    (String.ofList pair.1, String.ofList pair.2))

/-- The route that a path matches among those of a method, and the values of its parameters. -/
def lookup (table : RouteTable σ) (method : Method) (path : String) :
    Option (Route σ × Params) :=
  let candidates := (table.ofMethod method).map fun entry =>
    (⟨entry.pattern, entry⟩ : Pattern.Candidate (RouteEntry σ))
  (Pattern.search path.toList 0 candidates).map fun found =>
    (found.1.route, params found.1.pattern found.2)

end RouteTable

end TimedHttp
