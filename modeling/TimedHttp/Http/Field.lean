import TimedHttp.Text.Cut
import TimedHttp.Http.Method

/-!
# Header fields

A header is a list of fields in the order in which they were added. Names are tokens and are kept
in lower case; a value holds any character but the controls, tabs excepted. A value is *readable*
when it is plain ASCII: unreadable values are kept and passed on, but no look-up gives them out.

## Main definitions

* `Field`, `Field.ofPair?` — a field, and which pairs of texts are one
* `Header`, `Header.append` — fields in order; pairs that are no fields are left out
* `Header.first`, `Header.readable` — the look-ups
-/

namespace TimedHttp

/-- The characters of a field value: everything but control characters, and tabs. -/
def isFieldValueChar (c : Char) : Bool := c = '\t' || (32 ≤ c.toNat && c.toNat ≠ 127)

/-- The characters of a readable field value: printable ASCII, blanks and tabs. -/
def isReadableChar (c : Char) : Bool := c = '\t' || (32 ≤ c.toNat && c.toNat < 127)

/-- **Header field**: a lower-case token and a value without control characters. -/
structure Field where
  name : String
  value : String
  name_token : isToken name = true
  value_chars : value.toList.all isFieldValueChar = true

namespace Field

theorem ext {f g : Field} (hname : f.name = g.name) (hvalue : f.value = g.value) : f = g := by
  cases f; cases g; cases hname; cases hvalue; rfl

instance : DecidableEq Field := fun f g =>
  decidable_of_iff (f.name = g.name ∧ f.value = g.value)
    ⟨fun h => ext h.1 h.2, fun h => h ▸ ⟨rfl, rfl⟩⟩

/-- The field of a name in any case and a value, if both are valid. -/
def ofPair? (name value : String) : Option Field :=
  if h : isToken (Text.lower name) = true ∧ value.toList.all isFieldValueChar = true then
    some ⟨Text.lower name, value, h.1, h.2⟩
  else none

theorem name_and_value_of_ofPair? {name value : String} {f : Field}
    (h : ofPair? name value = some f) : f.name = Text.lower name ∧ f.value = value := by
  rw [ofPair?] at h
  split at h
  · cases h
    exact ⟨rfl, rfl⟩
  · cases h

/-- The value, if it is readable. -/
def readable (f : Field) : Option String :=
  if f.value.toList.all isReadableChar then some f.value else none

/-- A readable value makes a readable field. -/
theorem exists_readable {name value : String} (hname : isToken (Text.lower name) = true)
    (h : ∀ c ∈ value.toList, isReadableChar c = true) :
    ∃ f, ofPair? name value = some f ∧ f.name = Text.lower name ∧ f.readable = some value := by
  have hvalue : value.toList.all isFieldValueChar = true := by
    rw [List.all_eq_true]
    intro c hc
    have hreadable := h c hc
    simp only [isReadableChar, isFieldValueChar, Bool.or_eq_true, Bool.and_eq_true,
      decide_eq_true_eq] at hreadable ⊢
    exact hreadable.imp_right fun ⟨hlow, hhigh⟩ => ⟨hlow, by omega⟩
  exact ⟨_, dif_pos ⟨hname, hvalue⟩, rfl, if_pos (List.all_eq_true.mpr h)⟩

end Field

/-- **Header**: fields in the order in which they were added. -/
abbrev Header := List Field

namespace Header

/-- Adds a field at the end; a pair that is no field is left out. -/
def append (h : Header) (name value : String) : Header :=
  match Field.ofPair? name value with
  | some field => h ++ [field]
  | none => h

/-- The fields of one name, given in any case. -/
def named (h : Header) (name : String) : Header :=
  h.filter fun field => field.name = Text.lower name

/-- The value of the first field of a name. It is absent if that one field is unreadable, whatever
follows it. -/
def first (h : Header) (name : String) : Option String :=
  (h.named name).head?.bind Field.readable

/-- All readable values of a name, in order. -/
def readable (h : Header) (name : String) : List String :=
  (h.named name).filterMap Field.readable

end Header

end TimedHttp
