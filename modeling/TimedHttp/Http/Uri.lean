import TimedHttp.Http.OriginForm
import TimedHttp.Text.Cut

/-!
# Request URIs

The URIs that may stand as the target of a request: a path with an optional query (origin form), an
asterisk, an authority alone, or `scheme://authority` followed by an optional path and query
(absolute form). A fragment is dropped unread.

Reading goes over characters. All rules that single out characters name ASCII ones; every other
character may stand in a path or a query and nowhere else.

## Main definitions

* `Uri` — the parts of a URI
* `Uri.parse?` — reads a URI
* `Uri.text` — writes it
* `Uri.host` — the host in its authority
-/

namespace TimedHttp

/-- **Request URI**. Without a scheme there is an authority or a path, not both. -/
structure Uri where
  scheme : Option String
  authority : Option String
  path : String
  query : Option String
  deriving DecidableEq

namespace Uri

/-- The longest URI that is read, in bytes. -/
def maxBytes : Nat := 65534

/-- The longest scheme other than `http` and `https`. -/
def maxScheme : Nat := 64

/-- The most colons that may follow each other in one part of an authority. -/
def maxColons : Nat := 8

/-! ## Character classes -/

/-- The characters of a scheme. -/
def isSchemeChar (c : Char) : Bool := c.isAlphanum || c ∈ "+-.~".toList

/-- The characters that may stand in an authority besides the percent sign. -/
def isAuthorityChar (c : Char) : Bool := c.isAlphanum || c ∈ "!$&'()*+,-.:;=@[]_~".toList

/-- The character lies between two others. -/
def within (low high c : Char) : Bool := low.toNat ≤ c.toNat && c.toNat ≤ high.toNat

/-- The characters of a path: some ASCII ones, and all others. -/
def isPathChar (c : Char) : Bool :=
  128 ≤ c.toNat || c = '!' || within '$' ';' c || c = '=' || within '@' '_' c || within 'a' 'z' c
    || c ∈ "|~\"\x7b\x7d".toList

/-- The characters of a query: some ASCII ones, and all others. -/
def isQueryChar (c : Char) : Bool :=
  128 ≤ c.toNat || c = '!' || within '$' ';' c || c = '=' || within '?' '~' c

/-! ## Path and query -/

/-- The character ends a path. -/
def endsPath (c : Char) : Bool := c = '?' || c = '#'

/-- Reads a path and a query; from the first `#` on the text is dropped. -/
def parsePathQuery? (text : List Char) : Option (List Char × Option (List Char)) :=
  let path := text.takeWhile fun c => !endsPath c
  if path.all isPathChar then
    match text.dropWhile fun c => !endsPath c with
    | '?' :: rest =>
      let query := rest.takeWhile (· ≠ '#')
      if query.all isQueryChar then some (path, some query) else none
    | _ => some (path, none)
  else none

/-- A path that was left out reads as the root. -/
def orRoot (path : List Char) : String := if path = [] then "/" else String.ofList path

/-! ## Authority -/

/-- What the scan of an authority keeps in mind. -/
structure AuthorityScan where
  /-- colons since the last `]` or `@` -/
  colons : Nat := 0
  opened : Bool := false
  closed : Bool := false
  /-- a percent sign since the last `]` or `@` -/
  percent : Bool := false
  /-- the last character was `@` -/
  afterAt : Bool := false
  deriving DecidableEq

namespace AuthorityScan

/-- Takes one character in; fails where it must not stand. -/
def step (s : AuthorityScan) (c : Char) : Option AuthorityScan :=
  let s' := { s with afterAt := c = '@' }
  if c = ':' then
    if s.colons < maxColons then some { s' with colons := s.colons + 1 } else none
  else if c = '[' then
    if s.percent || s.opened then none else some { s' with opened := true }
  else if c = ']' then
    if !s.opened || s.closed then none
    else some { s' with closed := true, colons := 0, percent := false }
  else if c = '@' then some { s' with colons := 0, percent := false }
  else if c = '%' then some { s' with percent := true }
  else if isAuthorityChar c then some s'
  else none

/-- The authority may end here: brackets match, at most one colon stands before a port, no percent
sign is left outside the user information, and something follows it. -/
def complete (s : AuthorityScan) : Bool :=
  s.opened == s.closed && s.colons ≤ 1 && !s.afterAt && !s.percent

end AuthorityScan

/-- The text is a non-empty authority. -/
def isAuthority (text : List Char) : Bool :=
  text ≠ [] &&
    match text.foldlM AuthorityScan.step {} with
    | some s => s.complete
    | none => false

/-! ## Scheme -/

/-- How a text starts with respect to a scheme. -/
inductive SchemeStart where
  /-- no scheme -/
  | absent
  /-- a scheme, and what follows `://` -/
  | present (scheme : List Char) (rest : List Char)
  /-- a scheme beyond the limit -/
  | tooLong
  deriving DecidableEq

/-- What follows a text given in lower case, if `text` starts with it in any case. -/
def afterIgnoringCase : List Char → List Char → Option (List Char)
  | [], text => some text
  | _ :: _, [] => none
  | p :: ps, c :: cs => if c.toLower = p then afterIgnoringCase ps cs else none

/-- Reads scheme characters up to `://`. -/
def scanScheme : List Char → Option (List Char × List Char)
  | [] => none
  | ':' :: '/' :: '/' :: rest => some ([], rest)
  | c :: rest =>
    if isSchemeChar c then (scanScheme rest).map fun found => (c :: found.1, found.2) else none

/-- Looks for a scheme at the start of a text: `http` and `https` in any case, or a run of scheme
characters, possibly empty. -/
def schemeStart (text : List Char) : SchemeStart :=
  match afterIgnoringCase "http://".toList text with
  | some rest => .present "http".toList rest
  | none =>
    match afterIgnoringCase "https://".toList text with
    | some rest => .present "https".toList rest
    | none =>
      match scanScheme text with
      | none => .absent
      | some (scheme, rest) =>
        if scheme.length ≤ maxScheme then .present scheme rest else .tooLong

/-! ## The whole URI -/

/-- Reads `scheme://authority` with what follows, or an authority alone. -/
def parseFull? (text : List Char) : Option Uri :=
  match schemeStart text with
  | .tooLong => none
  | .absent =>
    if isAuthority text then some ⟨none, some (String.ofList text), "", none⟩ else none
  | .present scheme rest =>
    let authority := rest.takeWhile fun c => !isDelimiter c
    if isAuthority authority then
      (parsePathQuery? (rest.dropWhile fun c => !isDelimiter c)).map fun found =>
        ⟨some (String.ofList scheme), some (String.ofList authority), orRoot found.1,
          found.2.map String.ofList⟩
    else none

/-- Reads a URI. -/
def parse? (text : String) : Option Uri :=
  if text.utf8ByteSize > maxBytes then none
  else
    match text.toList with
    | [] => none
    | ['*'] => some ⟨none, none, "*", none⟩
    | '/' :: rest =>
      (parsePathQuery? ('/' :: rest)).map fun found =>
        ⟨none, none, orRoot found.1, found.2.map String.ofList⟩
    | text => parseFull? text

/-- The URI of the root path. -/
def root : Uri := ⟨none, none, "/", none⟩

/-- The URI as text. -/
def text (u : Uri) : String :=
  (match u.scheme with | some s => s ++ "://" | none => "")
    ++ u.authority.getD "" ++ u.path
    ++ (match u.query with | some q => "?" ++ q | none => "")

/-- The host part of an authority: what follows the last `@`, up to the port. A host that starts
with a bracket runs to the closing one. -/
def hostOf (authority : List Char) : List Char :=
  let hostPort := (authority.reverse.takeWhile (· ≠ '@')).reverse
  match hostPort with
  | '[' :: _ => hostPort.takeWhile (· ≠ ']') ++ [']']
  | _ => Text.upTo ':' hostPort

/-- The host in the authority, if there is one. -/
def host (u : Uri) : Option String :=
  u.authority.map fun a => String.ofList (hostOf a.toList)

end Uri

end TimedHttp
