import TimedHttp.Metric.Summary
import TimedHttp.Metric.Timer

/-!
# Stores

A store keeps a summary for every timer that was recorded, and counts the samples started.
-/

namespace TimedHttp

/-- **Store** of measurements. -/
structure Store where
  started : Nat := 0
  timers : SortedMap TimerKey Summary := .empty

namespace Store

/-- Counts a started sample. -/
def start (s : Store) : Store := { s with started := s.started + 1 }

/-- The summary of a key, without measurements if nothing was recorded. -/
def summary (s : Store) (key : TimerKey) : Summary := (s.timers.get? key).getD {}

/-- Recording the measurement leaves the range of durations. -/
def overflows (s : Store) (timer : Timer) (elapsed : Duration) : Bool :=
  (s.summary timer.key).overflows elapsed

/-- Takes one measurement into the summary of its timer. -/
def record (s : Store) (timer : Timer) (elapsed : Duration) : Store :=
  { s with timers := s.timers.update timer.key fun old => (old.getD {}).record elapsed }

/-- The tags recorded under a name with their summaries, in the order of the tags. -/
def find (s : Store) (name : String) : List (Tags × Summary) :=
  (s.timers.entries.filter fun entry => entry.1.name = name).map fun entry =>
    (entry.1.tags, entry.2)

/-- The number of measurements taken. -/
def recorded (s : Store) : Nat := (s.timers.entries.map fun entry => entry.2.count).foldr (· + ·) 0

end Store

end TimedHttp
