/-!
# Path patterns

A pattern is a path in which `{name}` stands for one segment of a path, or for the front part of
one, and `{*name}` for all that is left of it. Doubled braces stand for braces.

## Main definitions

* `Part`, `Pattern` — the parts of a pattern
* `Pattern.parse` — reads a pattern; its names must be valid
* `Pattern.fault` — the first placeholder that stands where it must not
* `Pattern.clashes` — two patterns that cannot be in one table
-/

namespace TimedHttp

/-- **Part** of a pattern. -/
inductive Part where
  | literal (c : Char)
  /-- `{name}` -/
  | parameter (name : List Char)
  /-- `{*name}` -/
  | remainder (name : List Char)
  deriving DecidableEq

/-- **Pattern** of a path. -/
abbrev Pattern := List Part

/-- **Pattern error**: why a pattern cannot be registered. -/
inductive PatternError where
  | invalidName
  | tooManyParameters
  | remainderNotLast
  | crowdedSegment
  /-- the pattern clashes with one in the table -/
  | clash (registered : String)
  deriving DecidableEq

namespace Pattern

/-- The most parameters of a pattern; a remainder does not count. -/
def maxParameters : Nat := 25

/-! ## Reading -/

/-- A character of a pattern once doubled braces are read. -/
inductive Mark where
  | plain (c : Char)
  | opening
  | closing
  deriving DecidableEq

/-- Reads doubled braces, from left to right. -/
def marks : List Char → List Mark
  | [] => []
  | '\x7b' :: '\x7b' :: rest => .plain '\x7b' :: marks rest
  | '\x7d' :: '\x7d' :: rest => .plain '\x7d' :: marks rest
  | '\x7b' :: rest => .opening :: marks rest
  | '\x7d' :: rest => .closing :: marks rest
  | c :: rest => .plain c :: marks rest

/-- The character that a mark stands for. -/
def Mark.char : Mark → Char
  | plain c => c
  | opening => '\x7b'
  | closing => '\x7d'

/-- **Where a reader stands** in a pattern. -/
inductive Place where
  /-- between placeholders -/
  | outside
  /-- right behind an opening brace -/
  | opened
  /-- in a name, of which this much is read -/
  | parameterName (name : List Char)
  | remainderName (name : List Char)
  deriving DecidableEq

/-- Neither a star nor a slash may stand in a name, other than the star that marks a remainder. -/
def Mark.barred (m : Mark) : Bool := m = .plain '*' || m = .plain '/'

/-- Reads the parts from a place on; `room` is how many more parameters may come. The first
character behind an opening brace may be any but a closing one. -/
def read (room : Nat) : Place → List Mark → Except PatternError Pattern
  | .outside, [] => .ok []
  | .outside, .plain c :: rest => (read room .outside rest).map (.literal c :: ·)
  | .outside, .opening :: rest => read room .opened rest
  | .outside, .closing :: _ => .error .invalidName
  | .opened, mark :: rest =>
    if mark.char = '\x7d' then .error .invalidName
    else if mark = .plain '*' then read room (.remainderName []) rest
    else read room (.parameterName [mark.char]) rest
  | .parameterName name, .closing :: rest =>
    match room with
    | 0 => .error .tooManyParameters
    | room + 1 => (read room .outside rest).map (.parameter name :: ·)
  | .parameterName name, mark :: rest =>
    if mark.barred then .error .invalidName
    else read room (.parameterName (name ++ [mark.char])) rest
  | .remainderName name, .closing :: rest =>
    if name = [] then .error .invalidName
    else (read room .outside rest).map (.remainder name :: ·)
  | .remainderName name, mark :: rest =>
    if mark.barred then .error .invalidName
    else read room (.remainderName (name ++ [mark.char])) rest
  | _, [] => .error .invalidName

/-- Reads a pattern. -/
def parse (text : String) : Except PatternError Pattern :=
  read maxParameters .outside (marks text.toList)

/-! ## Writing -/

/-- A part with single braces. -/
def partText : Part → List Char
  | .literal c => [c]
  | .parameter name => '\x7b' :: (name ++ ['\x7d'])
  | .remainder name => '\x7b' :: '*' :: (name ++ ['\x7d'])

/-- A pattern with single braces throughout. -/
def text (p : Pattern) : String := String.ofList (p.flatMap partText)

/-- The names of parameters and remainder, in order. -/
def names (p : Pattern) : List (List Char) :=
  p.filterMap fun
    | .literal _ => none
    | .parameter name => some name
    | .remainder name => some name

/-! ## Rules -/

/-- The first fault in the order of the parts: something after a remainder, or two placeholders in
one segment. `taken` says that a parameter stands in the segment. -/
def fault (taken : Bool) : Pattern → Option PatternError
  | [] => none
  | .literal c :: rest => fault (taken && c ≠ '/') rest
  | .parameter _ :: rest => if taken then some .crowdedSegment else fault true rest
  | .remainder _ :: rest =>
    if taken then some .crowdedSegment
    else if rest = [] then none
    else some .remainderNotLast

/-- Two patterns clash if they are alike up to the names of parameters, or if where they first
differ one has a remainder and the other a placeholder. -/
def clashes : Pattern → Pattern → Bool
  | [], [] => true
  | .literal c :: p, .literal d :: q => c = d && clashes p q
  | .parameter _ :: p, .parameter _ :: q => clashes p q
  | .parameter _ :: _, .remainder _ :: _ => true
  | .remainder _ :: _, .parameter _ :: _ => true
  | .remainder _ :: _, .remainder _ :: _ => true
  | _, _ => false

end Pattern

end TimedHttp
