import TimedHttp.Exchange
import TimedHttp.Timing.Outcome

/-!
# Standard tags

The tags of an exchange: its method, where it went, its status and family, its outcome, the class
of its error and the name of its handler. Where it went is the pattern of the route, never the
path, so that the number of tag sets is bounded by the routes.
-/

namespace TimedHttp

/-- **Tags provider**: the tags of an exchange with its route and outcome, or the message of a
crash. -/
abbrev TagsProvider (σ : Type) :=
  Exchange σ → Option (Route σ) → Outcome → Except String Tags

namespace StandardTags

variable {σ : Type}

/-- Stands for a value that is absent. -/
def absent : String := "none"

/-- The text without one final slash, unless it has at most one byte. -/
def withoutFinalSlash (text : String) : String :=
  if 1 < text.utf8ByteSize ∧ text.toList.getLast? = some '/' then
    String.ofList text.toList.dropLast
  else text

/-- Where an exchange with a route went: the pattern. -/
def routedUri (ignoreFinalSlash : Bool) (pattern : String) : String :=
  let pattern := if ignoreFinalSlash then withoutFinalSlash pattern else pattern
  if pattern = "" then "root" else pattern

/-- Where an exchange without a route went, as far as status and path tell. -/
def unroutedUri (status : Status) (path : String) : String :=
  if status.isRedirection then "REDIRECTION"
  else if status = .notFound then "NOT_FOUND"
  else if path = "" ∨ path = "/" then "root"
  else "UNKNOWN"

/-- Where an exchange went. -/
def uri (ignoreFinalSlash : Bool) (x : Exchange σ) : Option (Route σ) → String
  | some route => routedUri ignoreFinalSlash route.pattern
  | none => unroutedUri x.status x.request.path

/-- The standard tags of an exchange. -/
def tags (ignoreFinalSlash : Bool) (x : Exchange σ) (route : Option (Route σ))
    (outcome : Outcome) : Tags :=
  .ofList [
    ("method", x.request.method.name),
    ("uri", uri ignoreFinalSlash x route),
    ("status", x.status.digits),
    ("family", x.status.family),
    ("outcome", outcome.name),
    ("exception", outcome.errorClass.getD absent),
    ("handler", (route.map Route.name).getD absent)]

/-- The provider of the standard tags. -/
def provider (ignoreFinalSlash : Bool) : TagsProvider σ :=
  fun x route outcome => .ok (tags ignoreFinalSlash x route outcome)

end StandardTags

end TimedHttp
