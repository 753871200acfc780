import TimedHttp.Text.Cut

/-!
# Qualified names

Names of the form `a::b::c`, where the last segment may carry arguments in angle brackets. The
short name drops the path and keeps the arguments whole; the member name keeps the last two
segments of the full text and joins them by a number sign.
-/

namespace TimedHttp.Text

/-- The name without its path: what follows the last `::` before the first `<`, arguments kept. -/
def shortName (name : String) : String :=
  let text := name.toList
  match cutLastColons (text.takeWhile (· ≠ '<')) with
  | some (_, last) => String.ofList (last ++ text.dropWhile (· ≠ '<'))
  | none => name

/-- The last two `::`-segments of the whole text, joined by `#`; a text of one segment as it is. -/
def memberName (name : String) : String :=
  match cutLastColons name.toList with
  | none => name
  | some (path, member) =>
    let owner := match cutLastColons path with
      | some (_, segment) => segment
      | none => path
    String.ofList (owner ++ '#' :: member)

/-- What stands behind the last two adjacent colons of a path, or all of a path without them. -/
def lastSegment (path : List Char) : List Char :=
  ((cutLastColons path).map Prod.snd).getD path

theorem lastSegment_of_not_hasColons {path : List Char} (h : ¬HasColons path) :
    lastSegment path = path := by
  rw [lastSegment, cutLastColons_eq_none_iff.mpr h]
  rfl

theorem lastSegment_of_cut {path inner segment : List Char}
    (h : cutLastColons path = some (inner, segment)) : lastSegment path = segment := by
  rw [lastSegment, h]
  rfl

/-- **The last segment stands behind all colons**, whatever stands in front of them. -/
theorem lastSegment_append_colons {path : List Char} (hhead : path.head? ≠ some ':')
    (front : List Char) : lastSegment (front ++ ':' :: ':' :: path) = lastSegment path := by
  cases hpath : cutLastColons path with
  | none =>
    have hplain := cutLastColons_eq_none_iff.mp hpath
    have hcut := cutLastColons_append_colons (cutLastColons_colon_cons hplain hhead) front
    rw [lastSegment_of_cut hcut, lastSegment_of_not_hasColons hplain]
  | some cut =>
    have hcut := cutLastColons_append hpath (front ++ [':', ':'])
    rw [List.append_cons, List.append_cons, List.append_assoc front, lastSegment_of_cut hpath]
    exact lastSegment_of_cut hcut

/-- **The member name of a cut name** joins the two segments at its last colons. -/
theorem memberName_of_cut {name : String} {path member : List Char}
    (h : cutLastColons name.toList = some (path, member)) :
    memberName name = String.ofList (lastSegment path ++ '#' :: member) := by
  simp only [memberName, h, lastSegment]
  cases cutLastColons path <;> rfl

end TimedHttp.Text
