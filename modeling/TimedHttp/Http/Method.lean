/-!
# Tokens and methods

A token is a non-empty word of letters, digits and a few marks. Methods are tokens, compared with
their case; the names of header fields are tokens too, compared without it.
-/

namespace TimedHttp

/-- The characters of a token. -/
def isTokenChar (c : Char) : Bool :=
  c.isAlphanum || c ∈ "!#$%&'*+-.^_`|~".toList

/-- A non-empty word of token characters. -/
def isToken (text : String) : Bool := text ≠ "" && text.toList.all isTokenChar

/-- **Request method**: a token, compared with its case. -/
structure Method where
  name : String
  token : isToken name = true
  deriving DecidableEq

namespace Method

/-- The method of a name, if the name is a token. -/
def ofString? (name : String) : Option Method :=
  if h : isToken name = true then some ⟨name, h⟩ else none

theorem ofString?_name (m : Method) : ofString? m.name = some m := by
  simp [ofString?, m.token]

/-- The method of a request that names none. -/
def get : Method := ⟨"GET", by decide⟩

end Method

end TimedHttp
