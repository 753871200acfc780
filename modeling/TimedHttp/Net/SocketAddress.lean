import TimedHttp.Text.Quoted

/-!
# Socket addresses

An IP address and a port. Version 4 is written as four decimal bytes, version 6 as groups of
hexadecimal digits between brackets, in which the longest run of zero groups is left out. A
version 6 address may name the zone it belongs to.

## Main definitions

* `IpAddress`, `IpAddress.text` — addresses and their canonical form
* `SocketAddress`, `SocketAddress.text` — with a port
* `SocketAddress.parse?` — reads an address with its port; nothing may stand around it
-/

namespace TimedHttp

/-- **IP address**. -/
inductive IpAddress where
  /-- four bytes -/
  | v4 (a b c d : UInt8)
  /-- eight groups of two bytes, and the number of a zone, 0 for none -/
  | v6 (groups : List UInt16) (zone : UInt32)
  deriving DecidableEq

/-- **Socket address**: an IP address and a port. -/
structure SocketAddress where
  ip : IpAddress
  port : UInt16
  deriving DecidableEq

/-! ## Writing -/

namespace IpAddress

/-- Four bytes with dots between them. -/
def dotted (a b c d : UInt8) : String :=
  String.intercalate "." [toString a.toNat, toString b.toNat, toString c.toNat, toString d.toNat]

/-- The number of zero groups a list starts with. -/
def zeroRun (groups : List UInt16) : Nat := (groups.takeWhile (· = 0)).length

/-- Where the longest run of zero groups starts and how long it is; of two the first. -/
def longestZeroRun : Nat → List UInt16 → Nat × Nat
  | _, [] => (0, 0)
  | start, g :: rest =>
    let here := zeroRun (g :: rest)
    let later := longestZeroRun (start + 1) rest
    if later.2 ≤ here then (start, here) else later

/-- Groups with colons between them. -/
def colons (groups : List UInt16) : String :=
  String.intercalate ":" (groups.map fun g => String.ofList (Text.hex g.toNat))

/-- Eight groups, with the longest run of at least two zero groups left out, or with the version 4
address they stand for spelled out. -/
def groupsText (groups : List UInt16) : String :=
  match groups with
  | [0, 0, 0, 0, 0, 0xffff, high, low] =>
    "::ffff:" ++ dotted (high >>> 8).toUInt8 high.toUInt8 (low >>> 8).toUInt8 low.toUInt8
  | _ =>
    let run := longestZeroRun 0 groups
    if run.2 > 1 then colons (groups.take run.1) ++ "::" ++ colons (groups.drop (run.1 + run.2))
    else colons groups

/-- The canonical form of an address. -/
def text : IpAddress → String
  | v4 a b c d => dotted a b c d
  | v6 groups _ => groupsText groups

end IpAddress

/-- The canonical form of an address with its port. -/
def SocketAddress.text (s : SocketAddress) : String :=
  match s.ip with
  | .v4 .. => s.ip.text ++ ":" ++ toString s.port.toNat
  | .v6 _ zone =>
    "[" ++ s.ip.text ++ (if zone = 0 then "" else "%" ++ toString zone.toNat) ++ "]:"
      ++ toString s.port.toNat

/-! ## Reading

Each reader takes the characters it needs off the front and hands back the rest.
-/

namespace AddressReader

/-- The value of a digit, if it is one of the base. -/
def digit? (base : Nat) (c : Char) : Option Nat :=
  let value :=
    if c.isDigit then c.toNat - '0'.toNat
    else if 'a' ≤ c ∧ c ≤ 'f' then c.toNat - 'a'.toNat + 10
    else if 'A' ≤ c ∧ c ≤ 'F' then c.toNat - 'A'.toNat + 10
    else base
  if value < base then some value else none

/-- The number a list of digits writes. -/
def value (base : Nat) (digits : List Char) : Nat :=
  digits.foldl (fun n c => n * base + (digit? base c).getD 0) 0

/-- Which numbers a place takes. -/
structure NumberForm where
  base : Nat
  /-- the most digits, if there is a limit -/
  maxDigits : Option Nat
  leadingZeros : Bool
  /-- one more than the largest number -/
  bound : Nat

/-- A byte of a version 4 address. -/
def byteForm : NumberForm := ⟨10, some 3, false, 256⟩
/-- A group of a version 6 address. -/
def groupForm : NumberForm := ⟨16, some 4, true, 65536⟩
def portForm : NumberForm := ⟨10, none, true, 65536⟩
def zoneForm : NumberForm := ⟨10, none, true, 4294967296⟩

/-- Reads all digits at the front as one number. -/
def number (form : NumberForm) (text : List Char) : Option (Nat × List Char) :=
  let isDigit := fun c => (digit? form.base c).isSome
  let digits := text.takeWhile isDigit
  let n := value form.base digits
  let fits := match form.maxDigits with | some most => digits.length ≤ most | none => true
  if digits ≠ [] && fits && (form.leadingZeros || digits.length = 1 || digits.head? ≠ some '0')
      && n < form.bound then
    some (n, text.dropWhile isDigit)
  else none

/-- Reads one given character. -/
def char (c : Char) : List Char → Option (List Char)
  | [] => none
  | d :: rest => if d = c then some rest else none

/-- Reads four bytes with dots between them. -/
def dotted (text : List Char) : Option ((Nat × Nat × Nat × Nat) × List Char) := do
  let (a, text) ← number byteForm text
  let (b, text) ← number byteForm (← char '.' text)
  let (c, text) ← number byteForm (← char '.' text)
  let (d, text) ← number byteForm (← char '.' text)
  return ((a, b, c, d), text)

/-- Reads the colon between two groups; none stands before the first. -/
def separator (isFirst : Bool) (text : List Char) : Option (List Char) :=
  if isFirst then some text else char ':' text

/-- Reads up to `limit` groups, of which the last two may be written as a version 4 address. Says
whether they were. -/
def groups : Nat → Bool → List Char → List Nat × Bool × List Char
  | 0, _, text => ([], false, text)
  | limit + 1, isFirst, text =>
    let embedded := if limit = 0 then none else (separator isFirst text).bind dotted
    match embedded with
    | some ((a, b, c, d), rest) => ([a * 256 + b, c * 256 + d], true, rest)
    | none =>
      match (separator isFirst text).bind (number groupForm) with
      | none => ([], false, text)
      | some (group, rest) =>
        let (more, ends4, rest) := groups limit false rest
        (group :: more, ends4, rest)

/-- Reads eight groups, or fewer with `::` in place of at least one. -/
def groups6 (text : List Char) : Option (List Nat × List Char) :=
  let (head, ends4, rest) := groups 8 true text
  if head.length = 8 then some (head, rest)
  else if ends4 then none
  else
    match rest with
    | ':' :: ':' :: rest =>
      let (tail, _, rest) := groups (7 - head.length) true rest
      some (head ++ List.replicate (8 - head.length - tail.length) 0 ++ tail, rest)
    | _ => none

/-- Reads a port after its colon. -/
def port (text : List Char) : Option (UInt16 × List Char) := do
  let (n, rest) ← number portForm (← char ':' text)
  return (UInt16.ofNat n, rest)

/-- Reads a version 4 address and its port. -/
def socket4 (text : List Char) : Option (SocketAddress × List Char) := do
  let ((a, b, c, d), rest) ← dotted text
  let (port, rest) ← port rest
  return (⟨.v4 (.ofNat a) (.ofNat b) (.ofNat c) (.ofNat d), port⟩, rest)

/-- Reads the zone of a version 6 address, if one is given. -/
def zone (text : List Char) : Option (UInt32 × List Char) :=
  match text with
  | '%' :: rest => (number zoneForm rest).map fun (n, rest) => (UInt32.ofNat n, rest)
  | _ => some (0, text)

/-- Reads a version 6 address in brackets and its port. -/
def socket6 (text : List Char) : Option (SocketAddress × List Char) := do
  let (groups, rest) ← groups6 (← char '[' text)
  let (zone, rest) ← zone rest
  let (port, rest) ← port (← char ']' rest)
  return (⟨.v6 (groups.map UInt16.ofNat) zone, port⟩, rest)

end AddressReader

/-- Reads a socket address that fills the whole text. -/
def SocketAddress.parse? (text : String) : Option SocketAddress :=
  match AddressReader.socket4 text.toList with
  | some (address, rest) => if rest = [] then some address else none
  | none =>
    match AddressReader.socket6 text.toList with
    | some (address, []) => some address
    | _ => none

end TimedHttp
