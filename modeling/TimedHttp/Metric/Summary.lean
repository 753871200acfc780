import TimedHttp.Metric.Duration

/-!
# Summaries

What is kept of the measurements of one timer: how many there were, their sum and the longest.

Recording counts first and adds second. If the sum leaves the range of durations, the count has
been raised and sum and maximum stay as they were.
-/

namespace TimedHttp

/-- **Summary** of the measurements of one timer. -/
structure Summary where
  count : Nat := 0
  total : Duration := .zero
  max : Duration := .zero
  deriving DecidableEq

namespace Summary

/-- The sum of the measurements and another one is out of range. -/
def overflows (s : Summary) (elapsed : Duration) : Bool := (s.total.add? elapsed).isNone

/-- Takes one measurement in. -/
def record (s : Summary) (elapsed : Duration) : Summary :=
  match s.total.add? elapsed with
  | some total => { count := s.count + 1, total, max := s.max.max elapsed }
  | none => { s with count := s.count + 1 }

/-- The average in whole nanoseconds, rounded down and cut down to 64 bits; zero without
measurements. -/
def mean (s : Summary) : Duration :=
  if s.count = 0 then .zero else .ofNanosecondsClamped (s.total.nanoseconds / s.count)

end Summary

end TimedHttp
