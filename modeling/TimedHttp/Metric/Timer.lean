import TimedHttp.Metric.Tags

/-!
# Timers

A timer is what a measurement is recorded into: a name, tags, perhaps a description. Its key, by
which measurements are collected, is the name with the tags.
-/

namespace TimedHttp

/-- **Timer**. -/
structure Timer where
  name : String
  tags : Tags := .empty
  description : Option String := none
  deriving DecidableEq

namespace Timer

/-- The timer of a name, without tags. -/
def named (name : String) : Timer := { name }

/-- Writes one tag. -/
def withTag (t : Timer) (key value : String) : Timer := { t with tags := t.tags.insert key value }

/-- Writes every tag of a set over those of the timer. -/
def withTags (t : Timer) (tags : Tags) : Timer := { t with tags := t.tags.extend tags }

/-- Sets or clears the description. -/
def withDescription (t : Timer) (description : Option String) : Timer := { t with description }

end Timer

/-- **Timer key**: under what a measurement is collected. -/
structure TimerKey where
  name : String
  tags : Tags
  deriving DecidableEq

/-- The key of a timer; its description does not count. -/
def Timer.key (t : Timer) : TimerKey := ⟨t.name, t.tags⟩

namespace TimerKey

/-- Compares two tag sets label by label. -/
def compareTags (a b : TimerKey) : Ordering :=
  List.compareLex Tags.compareLabels a.tags.entries b.tags.entries

theorem transCmp_lists : Std.TransCmp (List.compareLex Tags.compareLabels) := inferInstance

instance : Std.TransCmp compareTags where
  eq_swap := transCmp_lists.eq_swap
  isLE_trans := transCmp_lists.isLE_trans

/-- Compares two keys by name, then by tags. -/
def compareKeys : TimerKey → TimerKey → Ordering := compareLex (compareOn name) compareTags

instance : Ord TimerKey := ⟨compareKeys⟩

instance : Std.TransOrd TimerKey := inferInstanceAs (Std.TransCmp (compareLex _ _))

theorem eq_of_compareKeys {a b : TimerKey} (h : compareKeys a b = .eq) : a = b := by
  obtain ⟨h1, h2⟩ := compareLex_eq_eq.mp h
  obtain ⟨n, t⟩ := a
  obtain ⟨m, u⟩ := b
  have hn : compare n m = .eq := h1
  have ht : List.compareLex Tags.compareLabels t.entries u.entries = .eq := h2
  rw [Std.compare_eq_iff_eq.mp hn, SortedMap.ext_entries (Std.LawfulEqCmp.eq_of_compare ht)]

instance : Std.LawfulEqOrd TimerKey where
  compare_self := Std.ReflCmp.compare_self
  eq_of_compare := eq_of_compareKeys

end TimerKey

end TimedHttp
