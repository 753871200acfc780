import TimedHttp.Http.Field
import TimedHttp.Http.Status

/-!
# Responses

A response as the program builds it, and as it goes out. The program may name header fields as it
likes; on the way out, pairs that are no header fields are left out.
-/

namespace TimedHttp

/-- The types of a typed body. -/
inductive ContentType where
  | eventStream
  | html
  | json
  | octetStream
  | text
  deriving DecidableEq

/-- The value of the `content-type` field. -/
def ContentType.name : ContentType → String
  | eventStream => "text/event-stream"
  | html => "text/html; charset=utf-8"
  | json => "application/json"
  | octetStream => "application/octet-stream"
  | text => "text/plain; charset=utf-8"

/-- The bytes of a text in UTF-8. -/
def utf8 (text : String) : List UInt8 := text.toUTF8.toList

/-- **Response** as the program builds it. -/
structure Response where
  status : Status := .ok
  header : List (String × String) := []
  body : List UInt8 := []
  deriving DecidableEq

namespace Response

/-- A response with a status alone. -/
def bare (status : Status) : Response := { status }

/-- A response with a typed body; the type comes before the given fields. -/
def typed (status : Status) (fields : List (String × String)) (type : ContentType)
    (body : List UInt8) : Response :=
  { status, header := ("content-type", type.name) :: fields, body }

def json (body : List UInt8) : Response := typed .ok [] .json body

def text (body : String) : Response := typed .ok [] .text (utf8 body)

/-- The value of the first pair of a name, given in any case. -/
def field (r : Response) (name : String) : Option String :=
  (r.header.find? fun pair => Text.lower pair.1 = Text.lower name).map Prod.snd

end Response

/-! ## Building -/

/-- **Draft** of a response: a status and fields, before a body ends it. -/
structure Draft where
  status : Status := .ok
  fields : List (String × String) := []

namespace Draft

def withStatus (d : Draft) (status : Status) : Draft := { d with status }

def withField (d : Draft) (name value : String) : Draft :=
  { d with fields := d.fields ++ [(name, value)] }

/-- Ends the draft with a typed body. -/
def finish (d : Draft) (type : ContentType) (body : List UInt8) : Response :=
  Response.typed d.status d.fields type body

/-- Ends the draft without a body. -/
def finishBare (d : Draft) : Response := { status := d.status, header := d.fields }

end Draft

/-! ## Going out -/

/-- **Outgoing response**: every field is valid. -/
structure Outgoing where
  status : Status
  header : Header
  body : List UInt8

namespace Response

/-- The response as it goes out: pairs that are no header fields are left out. -/
def outgoing (r : Response) : Outgoing :=
  { status := r.status
    header := r.header.filterMap fun pair => Field.ofPair? pair.1 pair.2
    body := r.body }

/-- The names of the pairs that are left out, in order. -/
def dropped (r : Response) : List String :=
  (r.header.filter fun pair => (Field.ofPair? pair.1 pair.2).isNone).map Prod.fst

end Response

end TimedHttp
