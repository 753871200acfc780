/-!
# Origin form of a target

A request target may carry a scheme and an authority in front of its path. The origin form is what
follows them: everything from the first `/`, `?` or `#` after `scheme://authority`. A target whose
first such delimiter comes before any `://` is in origin form already and stays as it is.

## Main definitions

* `originForm` — by characters
* `originSlice?` — by indices into the bytes of the target, as it is stored
-/

namespace TimedHttp

/-- The characters that end a scheme and an authority. -/
def isDelimiter (c : Char) : Bool := c = '/' || c = '?' || c = '#'

/-- What follows `scheme://authority`, if the text starts so: the scan for the marker `://` gives
up at the first delimiter, and the authority runs up to the next one. -/
def afterAuthority : List Char → Option (List Char)
  | [] => none
  | ':' :: '/' :: '/' :: rest => some (rest.dropWhile fun c => !isDelimiter c)
  | c :: rest => if isDelimiter c then none else afterAuthority rest

/-- The origin form of a target. -/
def originForm (target : String) : String :=
  match afterAuthority target.toList with
  | some rest => String.ofList rest
  | none => target

/-! ## By the bytes of the text

A text is stored as bytes, and is cut by indices into them. A cut beyond the end fails, and so does
one inside a character. -/

/-- The bytes from an index on, which must not lie beyond the end. -/
def bytesFrom? (bytes : List UInt8) (start : Nat) : Option (List UInt8) :=
  if start ≤ bytes.length then some (bytes.drop start) else none

/-- The text from the byte of an index on; a character must begin there, or the text must end. -/
def textFrom? (text : String) (start : Nat) : Option String :=
  if h : String.Pos.Raw.IsValid text ⟨start⟩ then some (text.sliceFrom (text.pos ⟨start⟩ h)).copy
  else none

def isDelimiterByte (b : UInt8) : Bool :=
  b = '/'.toUInt8 || b = '?'.toUInt8 || b = '#'.toUInt8

/-- The scan for the marker from the byte of an index on, the list being the bytes that are left. -/
def scanBytes? (target : String) (bytes : List UInt8) : Nat → List UInt8 → Option String
  | _, [] => some target
  | i, b :: rest =>
    if isDelimiterByte b then some target
    else if b = ':'.toUInt8 then do
      let behind ← bytesFrom? bytes (i + 1)
      if ['/'.toUInt8, '/'.toUInt8].isPrefixOf behind then
        let authority := i + 3
        let tail ← bytesFrom? bytes authority
        match tail.findIdx? isDelimiterByte with
        | some offset => textFrom? target (authority + offset)
        | none => some ""
      else scanBytes? target bytes (i + 1) rest
    else scanBytes? target bytes (i + 1) rest

/-- The origin form of a target, cut out of its bytes; nothing if a cut fails. -/
def originSlice? (target : String) : Option String :=
  let bytes := target.toByteArray.data.toList
  scanBytes? target bytes 0 bytes

end TimedHttp
