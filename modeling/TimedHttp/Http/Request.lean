import TimedHttp.Http.Cookie
import TimedHttp.Http.Uri
import TimedHttp.Net.SocketAddress
import TimedHttp.SortedMap

/-!
# Requests

A request with its body fully read. Its target is kept in origin form next to the URI that it came
from; path parameters are filled in when a route is found.
-/

namespace TimedHttp

/-- **Request**. -/
structure Request where
  method : Method := .get
  uri : Uri := .root
  header : Header := []
  body : List UInt8 := []
  /-- the values of the parameters of the matched route, under their names -/
  params : SortedMap String String := .empty
  remoteAddress : Option SocketAddress := none
  /-- the address at which the request came in -/
  localAddress : Option SocketAddress := none
  deriving DecidableEq

namespace Request

/-- The request for a target given as text; a target that is no URI is replaced by the root. -/
def forTarget (target : String) : Request := { uri := (Uri.parse? target).getD .root }

/-- Adds a header field; a pair that is no field is left out. -/
def withField (r : Request) (name value : String) : Request :=
  { r with header := r.header.append name value }

/-- The target in origin form, with its query. -/
def target (r : Request) : String := originForm r.uri.text

/-- The path, without the query. -/
def path (r : Request) : String := r.uri.path

def query (r : Request) : Option String := r.uri.query

/-- The scheme of the URI, `http` if it has none. -/
def scheme (r : Request) : String := r.uri.scheme.getD "http"

/-- The first value of a header field, if it is readable. -/
def field (r : Request) (name : String) : Option String := r.header.first name

/-- The host in the URI, or else the `Host` field without its port. -/
def host (r : Request) : Option String :=
  match r.uri.host with
  | some host => some host
  | none => (r.field "host").map fun h => String.ofList (Text.upTo ':' h.toList)

def cookies (r : Request) : List Cookie := Cookie.ofHeader r.header

/-- The value of the first cookie of a name. -/
def cookie (r : Request) (name : String) : Option String :=
  (r.cookies.find? (·.name = name)).map Cookie.value

/-- The value of a path parameter. -/
def param (r : Request) (name : String) : Option String := r.params.get? name

end Request

end TimedHttp
