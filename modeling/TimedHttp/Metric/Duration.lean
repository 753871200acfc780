/-!
# Durations

A duration is a number of nanoseconds that fits into 64 bits of seconds and the rest of a second.
Adding may leave that range; taking a difference stops at zero.
-/

namespace TimedHttp

/-- The longest duration, in nanoseconds. -/
def maxNanoseconds : Nat := (UInt64.size - 1) * 1000000000 + 999999999

/-- **Duration**, in nanoseconds. -/
structure Duration where
  nanoseconds : Nat
  le_max : nanoseconds ≤ maxNanoseconds := by decide
  deriving DecidableEq

namespace Duration

theorem ext {a b : Duration} (h : a.nanoseconds = b.nanoseconds) : a = b := by
  cases a; cases b; cases h; rfl

/-- The duration of so many nanoseconds, if it is in range. -/
def ofNanoseconds? (n : Nat) : Option Duration :=
  if h : n ≤ maxNanoseconds then some ⟨n, h⟩ else none

def zero : Duration := { nanoseconds := 0 }

/-- The sum, if it is in range. -/
def add? (a b : Duration) : Option Duration := ofNanoseconds? (a.nanoseconds + b.nanoseconds)

/-- The longer of two. -/
def max (a b : Duration) : Duration := if a.nanoseconds ≤ b.nanoseconds then b else a

/-- The time from one instant to a later one; zero if the second is not later. -/
def since (now start : Duration) : Duration :=
  ⟨now.nanoseconds - start.nanoseconds, Nat.le_trans (Nat.sub_le _ _) now.le_max⟩

/-- Nanoseconds cut down to 64 bits: what does not fit becomes the largest number that does. -/
def ofNanosecondsClamped (n : Nat) : Duration :=
  ⟨min n (UInt64.size - 1), by unfold maxNanoseconds UInt64.size; omega⟩

theorem nanoseconds_max (a b : Duration) :
    (a.max b).nanoseconds = Nat.max a.nanoseconds b.nanoseconds := by
  unfold Duration.max
  split
  next h => exact (Nat.max_eq_right h).symm
  next h => exact (Nat.max_eq_left (Nat.le_of_not_le h)).symm

theorem add?_eq_some_iff {a b c : Duration} :
    a.add? b = some c ↔ a.nanoseconds + b.nanoseconds = c.nanoseconds := by
  unfold add? ofNanoseconds?
  split
  next => exact ⟨fun e => by cases e; rfl, fun e => congrArg some (ext e)⟩
  next h => exact ⟨nofun, fun e => absurd (e ▸ c.le_max) h⟩

end Duration

end TimedHttp
