import TimedHttp.Http.Field

/-!
# Cookies

The values of the `cookie` fields of a request hold pairs `name=value` between semicolons. Blanks
around pairs, names and values do not count, and quotes at the ends of a value are dropped. A piece
without an equals sign or with an empty name is no cookie.
-/

namespace TimedHttp

/-- **Cookie**. -/
structure Cookie where
  name : String
  value : String
  deriving DecidableEq

namespace Cookie

/-- The cookie written in one piece between semicolons, if it is one. -/
def ofPiece? (piece : List Char) : Option Cookie :=
  match Text.cutFirst '=' (Text.strip Text.isBlank piece) with
  | none => none
  | some (name, value) =>
    let name := Text.strip Text.isBlank name
    if name = [] then none
    else some ⟨String.ofList name,
      String.ofList (Text.strip (· = '"') (Text.strip Text.isBlank value))⟩

/-- The cookies in one field value, in order. -/
def ofValue (value : String) : List Cookie :=
  (Text.pieces ';' value.toList).filterMap ofPiece?

/-- The cookies of a header, in order. Unreadable values hold none. -/
def ofHeader (header : Header) : List Cookie :=
  (header.readable "cookie").flatMap ofValue

end Cookie

end TimedHttp
