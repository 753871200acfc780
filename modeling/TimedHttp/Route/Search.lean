import TimedHttp.Route.Pattern

/-!
# Searching patterns

Finds the pattern that a path matches among several that do not clash. Literal characters go before
placeholders: at every character the patterns that go on with it are tried, and only if that leads
nowhere those that have a placeholder there. A parameter takes a whole segment, or a segment up to
the longest suffix that some pattern puts behind it; no other suffix is tried then. A remainder
takes all that is left. No placeholder takes nothing.
-/

namespace TimedHttp.Pattern

/-- **Candidate** of a search: what is left of a pattern, and what the pattern stands for. -/
structure Candidate (α : Type) where
  left : Pattern
  item : α

variable {α : Type}

/-- The candidates that go on with a character, behind it. -/
def afterLiteral (c : Char) (candidates : List (Candidate α)) : List (Candidate α) :=
  candidates.filterMap fun candidate =>
    match candidate.left with
    | .literal d :: rest => if c = d then some ⟨rest, candidate.item⟩ else none
    | _ => none

/-- The candidates that go on with a parameter, behind it. -/
def afterParameter (candidates : List (Candidate α)) : List (Candidate α) :=
  candidates.filterMap fun candidate =>
    match candidate.left with
    | .parameter _ :: rest => some ⟨rest, candidate.item⟩
    | _ => none

/-- What stands for a pattern that goes on with a remainder. -/
def atRemainder (candidates : List (Candidate α)) : Option α :=
  candidates.findSome? fun candidate =>
    match candidate.left with
    | .remainder _ :: _ => some candidate.item
    | _ => none

/-- What stands for a pattern of which nothing is left. -/
def complete (candidates : List (Candidate α)) : Option α :=
  candidates.findSome? fun candidate =>
    match candidate.left with
    | [] => some candidate.item
    | _ => none

/-- The literal characters at the front of a pattern, up to the first slash and with it. -/
def suffix : Pattern → List Char
  | .literal c :: rest => if c = '/' then [c] else c :: suffix rest
  | _ => []

/-- The part of a path up to its first slash. -/
def segment (path : List Char) : List Char := path.takeWhile (· ≠ '/')

/-- A segment with the slash behind it, if there is one. -/
def segmentWithSlash (path : List Char) : List Char :=
  segment path ++ (path.dropWhile (· ≠ '/')).take 1

/-- The longest of the suffixes that leave something of a text, or nothing if none does. -/
def longestSuffix (text : List Char) (suffixes : List (List Char)) : Option (List Char) :=
  let fitting := suffixes.filter fun s => s ≠ [] && s.length < text.length && s.isSuffixOf text
  fitting.foldl (fun best s =>
    match best with
    | none => some s
    | some b => if b.length < s.length then some s else some b) none

/-- How a parameter goes on. -/
inductive Step (α : Type) where
  /-- it takes so many characters, and the search goes on behind them -/
  | takes (count : Nat) (behind : List (Candidate α))
  /-- it takes all that is left of the path -/
  | ends (item : α)
  | fails

/-- What a parameter takes of a path, given the candidates behind it. -/
def parameterStep (path : List Char) (behind : List (Candidate α)) : Step α :=
  let text := segmentWithSlash path
  match longestSuffix text (behind.map fun candidate => suffix candidate.left) with
  | some s =>
    .takes (text.length - s.length) (behind.filter fun candidate => suffix candidate.left = s)
  | none =>
    match complete behind with
    | some item => if segment path = path then .ends item else .fails
    | none => .fails

/-- Searches the candidates for one that a path matches, behind `skip` characters of it. Gives what
the pattern stands for and the values of its placeholders. -/
def search : List Char → Nat → List (Candidate α) → Option (α × List (List Char))
  | [], _, candidates => (complete candidates).map fun item => (item, [])
  | _ :: path, skip + 1, candidates => search path skip candidates
  | c :: path, 0, candidates =>
    let literals := afterLiteral c candidates
    match if literals.isEmpty then none else search path 0 literals with
    | some found => some found
    | none =>
      match atRemainder candidates with
      | some item => some (item, [c :: path])
      | none =>
        let parameters := afterParameter candidates
        if parameters.isEmpty || c = '/' then none
        else
          match parameterStep (c :: path) parameters with
          | .takes count behind =>
            (search path (count - 1) behind).map fun found =>
              (found.1, (c :: path).take count :: found.2)
          | .ends item => some (item, [c :: path])
          | .fails => none

end TimedHttp.Pattern
