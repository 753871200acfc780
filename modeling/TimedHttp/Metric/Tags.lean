import TimedHttp.SortedMap

/-!
# Tags

The labels of a timer: a value for each key, in the order of the keys. Writing a key again replaces
its value. Labels are ordered too, so that tag sets may be part of a key.
-/

namespace TimedHttp

/-- **Tags** of a timer. -/
abbrev Tags := SortedMap String String

namespace Tags

/-- All pairs `key=value`, in order, with commas between them. -/
def text (tags : Tags) : String :=
  String.intercalate "," (tags.entries.map fun tag => tag.1 ++ "=" ++ tag.2)

/-- Compares two labels by key, then by value. -/
def compareLabels : String × String → String × String → Ordering :=
  compareLex (compareOn Prod.fst) (compareOn Prod.snd)

theorem eq_of_compareLabels {a b : String × String} (h : compareLabels a b = .eq) : a = b := by
  obtain ⟨h1, h2⟩ := compareLex_eq_eq.mp h
  exact Prod.ext (Std.LawfulEqCmp.eq_of_compare h1) (Std.LawfulEqCmp.eq_of_compare h2)

instance : Std.TransCmp compareLabels := inferInstanceAs (Std.TransCmp (compareLex _ _))

instance : Std.LawfulEqCmp compareLabels where
  compare_self := Std.ReflCmp.compare_self
  eq_of_compare := eq_of_compareLabels

end Tags

end TimedHttp
