import TimedHttp.Proofs.Aggregates

/-!
# The average of measurements

The average that a summary tells is the sum of its measurements divided by their number, rounded
down to whole nanoseconds. It has 64 bits, which is less than a sum of durations may need: an
average that does not fit is cut down to the longest one that does. Up to there, the sum lies
between the average and the next nanosecond, each taken as often as there were measurements.

## Main definitions

* `Summary.mean?` — the same in numbers of bounded width, with every step that may fail

## Main statements

* `Summary.count_mul_mean_le`, `Summary.lt_count_mul_succ_iff` — the average against the sum
* `Summary.mean?_eq` — no step fails
* `Registry.average_of_measurements` — the average under a key
-/

namespace TimedHttp

/-! ## Numbers of bounded width -/

/-- The quotient, rounded down; there is none by zero. -/
def quotient? (n d : Nat) : Option Nat := if d = 0 then none else some (n / d)

namespace Summary

/-- The average, divided in 128 bits and cut down to 64. -/
def mean? (s : Summary) : Option Duration :=
  if s.count = 0 then some .zero
  else do
    let total ← fit? 128 s.total.nanoseconds
    let count ← fit? 128 s.count
    let nanoseconds ← quotient? total count
    Duration.ofNanoseconds? ((fit? 64 nanoseconds).getD (2 ^ 64 - 1))

/-! ## The average against the sum -/

variable {s : Summary}

theorem nanoseconds_mean (h : s.count ≠ 0) :
    s.mean.nanoseconds = min (s.total.nanoseconds / s.count) (2 ^ 64 - 1) := by
  rw [mean, if_neg h]
  rfl

/-- No more than the sum is told, whether the average is cut down or not. -/
theorem count_mul_mean_le (s : Summary) :
    s.count * s.mean.nanoseconds ≤ s.total.nanoseconds := by
  by_cases h : s.count = 0
  · rw [h, Nat.zero_mul]
    exact Nat.zero_le _
  · rw [nanoseconds_mean h]
    calc s.count * min (s.total.nanoseconds / s.count) (2 ^ 64 - 1)
        ≤ s.count * (s.total.nanoseconds / s.count) :=
          Nat.mul_le_mul_left _ (Nat.min_le_left _ _)
      _ ≤ s.total.nanoseconds := Nat.mul_div_le _ _

theorem mean_eq_of_le (h : s.count ≠ 0) (hle : s.count * 2 ^ 64 ≤ s.total.nanoseconds) :
    s.mean.nanoseconds = 2 ^ 64 - 1 := by
  have hpos : 0 < s.count := Nat.pos_of_ne_zero h
  have hquotient : 2 ^ 64 ≤ s.total.nanoseconds / s.count := by
    rw [Nat.le_div_iff_mul_le hpos, Nat.mul_comm]
    exact hle
  rw [nanoseconds_mean h]
  omega

/-- **The next nanosecond is too much**, unless the average was cut down. -/
theorem lt_count_mul_succ_iff (h : s.count ≠ 0) :
    s.total.nanoseconds < s.count * (s.mean.nanoseconds + 1) ↔
      s.total.nanoseconds < s.count * 2 ^ 64 := by
  have hpos : 0 < s.count := Nat.pos_of_ne_zero h
  constructor
  · intro hlt
    -- cut down or not, the average has 64 bits
    have hmean : s.mean.nanoseconds + 1 ≤ 2 ^ 64 := by
      rw [nanoseconds_mean h]
      omega
    exact Nat.lt_of_lt_of_le hlt (Nat.mul_le_mul_left _ hmean)
  · intro hlt
    have hquotient : s.total.nanoseconds / s.count < 2 ^ 64 := by
      rw [Nat.div_lt_iff_lt_mul hpos, Nat.mul_comm]
      exact hlt
    have hmean : s.mean.nanoseconds = s.total.nanoseconds / s.count := by
      rw [nanoseconds_mean h]
      omega
    rw [hmean]
    exact Nat.lt_mul_div_succ _ hpos

theorem SumsUp.mean_le_max {handed taken : List Duration} (h : s.SumsUp handed taken)
    (hsub : taken.Sublist handed) : s.mean.nanoseconds ≤ s.max.nanoseconds := by
  by_cases hcount : s.count = 0
  · rw [mean, if_pos hcount]
    exact Nat.zero_le _
  · rw [nanoseconds_mean hcount]
    calc min (s.total.nanoseconds / s.count) (2 ^ 64 - 1)
        ≤ s.total.nanoseconds / s.count := Nat.min_le_left _ _
      _ ≤ s.max.nanoseconds := Nat.div_le_of_le_mul (h.bounds hsub).2

/-! ## Steps that may fail -/

/-- **Nothing is divided by zero, and nothing overflows** on the way to the average. -/
theorem mean?_eq (hcount : s.count < 2 ^ 64) : s.mean? = some s.mean := by
  by_cases h : s.count = 0
  · rw [mean?, mean, if_pos h, if_pos h]
  · have htotal : s.total.nanoseconds < 2 ^ 128 :=
      Nat.lt_of_le_of_lt s.total.le_max (by decide)
    have hcut : (fit? 64 (s.total.nanoseconds / s.count)).getD (2 ^ 64 - 1) =
        min (s.total.nanoseconds / s.count) (2 ^ 64 - 1) := by
      rw [fit?]
      split
      · rw [Option.getD_some]
        omega
      · rw [Option.getD_none]
        omega
    have hrange : s.mean.nanoseconds ≤ maxNanoseconds := s.mean.le_max
    have hquotient : quotient? s.total.nanoseconds s.count =
        some (s.total.nanoseconds / s.count) := if_neg h
    rw [mean?, if_neg h, fit?_of_lt htotal, fit?_of_lt (by omega)]
    simp only [Option.bind_eq_bind, Option.bind_some, hquotient, hcut]
    rw [← nanoseconds_mean h, Duration.ofNanoseconds?, dif_pos hrange]

end Summary

/-! ## The average under a key -/

/-- A key under which nothing was handed over has a summary without measurements. -/
theorem Store.summary_after_of_nil {calls : List Call} {key : TimerKey}
    (h : durationsUnder key calls = []) : (({} : Store).after calls).summary key = {} := by
  rw [Store.summary, Store.get?_after, if_pos h]
  rfl

/-- **The average of measurements.** Let something be handed over under a key, and let there be room
for the sum. Then the key is found with its number of measurements, their sum and the longest. The
average, taken that many times, is not more than the sum, and it is not longer than the longest. Nor
is the sum as much as the next nanosecond taken that many times, as long as the average has 64 bits
of nanoseconds; an average that has more is told as the longest of 64 bits. No step overflows in
recording just as long as the count has 64 bits; then no step overflows or divides by zero in taking
the average either. Where nothing was handed over, the average is zero. -/
theorem Registry.average_of_measurements {calls : List Call} {key : TimerKey}
    (hne : durationsUnder key calls ≠ [])
    (hroom : ((durationsUnder key calls).map Duration.nanoseconds).sum ≤ maxNanoseconds) :
    ∃ store summary, (memory {}).after calls = memory store ∧
      (key.tags, summary) ∈ store.find key.name ∧
      summary.count = (durationsUnder key calls).length ∧
      summary.total.nanoseconds = ((durationsUnder key calls).map Duration.nanoseconds).sum ∧
      summary.count * summary.mean.nanoseconds ≤ summary.total.nanoseconds ∧
      summary.mean.nanoseconds ≤ summary.max.nanoseconds ∧
      (summary.total.nanoseconds < summary.count * (summary.mean.nanoseconds + 1) ↔
        summary.total.nanoseconds < summary.count * 2 ^ 64) ∧
      (summary.count * 2 ^ 64 ≤ summary.total.nanoseconds →
        summary.mean.nanoseconds = 2 ^ 64 - 1) ∧
      ((durationsUnder key calls).foldlM Summary.record? {} = some summary ↔
        summary.count < 2 ^ 64) ∧
      (summary.count < 2 ^ 64 → summary.mean? = some summary.mean) ∧
      ∀ other, durationsUnder other calls = [] →
        (store.summary other).mean = .zero ∧ (store.summary other).mean? = some .zero := by
  have hget : (({} : Store).after calls).timers.get? key =
      some ((durationsUnder key calls).foldl Summary.record {}) := by
    rw [Store.get?_after, if_neg hne]
    rfl
  have htaken : fitting 0 (durationsUnder key calls) = durationsUnder key calls :=
    fitting_eq_self (by rwa [Nat.zero_add])
  have hsums := Store.get?_after_iff.mp hget
  rw [htaken] at hsums
  have hcount : ((durationsUnder key calls).foldl Summary.record {}).count ≠ 0 := by
    rw [hsums.count]
    exact fun hzero => hne (List.length_eq_zero_iff.mp hzero)
  refine ⟨_, _, after_memory _ _, Store.mem_find_iff.mpr hget, hsums.count, hsums.total,
    Summary.count_mul_mean_le _, hsums.mean_le_max (List.Sublist.refl _),
    Summary.lt_count_mul_succ_iff hcount, Summary.mean_eq_of_le hcount, ?_, Summary.mean?_eq,
    fun other hother => ?_⟩
  · rw [hsums.count]
    constructor
    · intro hsteps
      have hfew := Summary.count_of_foldlM_record? (by decide) hsteps
      rwa [show ({} : Summary).count = 0 from rfl, Nat.zero_add] at hfew
    · intro hfew
      refine Summary.foldlM_record? ?_ ?_
      · show 0 + _ < _
        rwa [Nat.zero_add]
      · show 0 + _ ≤ _
        rwa [Nat.zero_add]
  · rw [Store.summary_after_of_nil hother]
    exact ⟨rfl, rfl⟩

/-! ## Ten and eleven nanoseconds, and an average of more than 64 bits -/

namespace Exports

/-- Two measurements of ten and of eleven nanoseconds, and one of the longest duration under another
name. -/
def uneven : List Call := [
  .recorded (.named "jobs") { nanoseconds := 10 } (.ofRequest {}),
  .recorded (.named "waits") { nanoseconds := maxNanoseconds } (.ofRequest {}),
  .recorded (.named "jobs") { nanoseconds := 11 } (.ofRequest {})]

/-- The average of the two is ten nanoseconds, and that of the longest duration is cut down. -/
theorem uneven_averaged :
    (durationsUnder (Timer.named "jobs").key uneven ≠ [] ∧
      ∃ store summary, (Registry.memory {}).after uneven = .memory store ∧
        (.empty, summary) ∈ store.find "jobs" ∧ summary.count = 2 ∧
        summary.total.nanoseconds = 21 ∧ summary.mean.nanoseconds = 10 ∧
        summary.mean? = some summary.mean) ∧
    durationsUnder (Timer.named "waits").key uneven ≠ [] ∧
      ∃ store summary, (Registry.memory {}).after uneven = .memory store ∧
        (.empty, summary) ∈ store.find "waits" ∧ summary.count = 1 ∧
        summary.mean.nanoseconds = 2 ^ 64 - 1 := by
  have hjobs : durationsUnder (Timer.named "jobs").key uneven =
      [{ nanoseconds := 10 }, { nanoseconds := 11 }] := by decide
  have hwaits : durationsUnder (Timer.named "waits").key uneven =
      [{ nanoseconds := maxNanoseconds }] := by decide
  have hsome : durationsUnder (Timer.named "jobs").key uneven ≠ [] := by
    rw [hjobs]
    exact List.cons_ne_nil _ _
  have hsome' : durationsUnder (Timer.named "waits").key uneven ≠ [] := by
    rw [hwaits]
    exact List.cons_ne_nil _ _
  refine ⟨⟨hsome, ?_⟩, hsome', ?_⟩
  · obtain ⟨store, summary, hafter, hfound, hcount, htotal, hle, -, hlt, -, -, hmean, -⟩ :=
      Registry.average_of_measurements hsome (by rw [hjobs]; decide)
    rw [hjobs] at hcount htotal
    have hcount : summary.count = 2 := hcount
    have htotal : summary.total.nanoseconds = 21 := htotal
    rw [hcount, htotal] at hle hlt
    have hnext := hlt.mpr (by decide)
    refine ⟨store, summary, hafter, hfound, hcount, htotal, by omega, ?_⟩
    exact hmean (by rw [hcount]; decide)
  · obtain ⟨store, summary, hafter, hfound, hcount, htotal, -, -, -, hcut, -⟩ :=
      Registry.average_of_measurements hsome' (by rw [hwaits]; decide)
    rw [hwaits] at hcount htotal
    have hcount : summary.count = 1 := hcount
    have htotal : summary.total.nanoseconds = maxNanoseconds := htotal
    refine ⟨store, summary, hafter, hfound, hcount, hcut ?_⟩
    rw [hcount, htotal]
    decide

/-- **An average that is cut down, and a count that overflows**: one measurement of 2^64 nanoseconds
has an average that is a nanosecond short, and 2^64 measurements of no length are too many. -/
theorem long_average_cut :
    (¬ ∀ durations : List Duration, durations ≠ [] →
      (durations.map Duration.nanoseconds).sum ≤ maxNanoseconds →
      let summary := durations.foldl Summary.record {}
      summary.count * summary.mean.nanoseconds ≤ summary.total.nanoseconds ∧
        summary.total.nanoseconds < summary.count * (summary.mean.nanoseconds + 1) ∧
        summary.mean.nanoseconds ≤ summary.max.nanoseconds) ∧
    ¬ ∀ durations : List Duration, durations ≠ [] →
      (durations.map Duration.nanoseconds).sum ≤ maxNanoseconds →
      ∃ summary, durations.foldlM Summary.record? {} = some summary := by
  constructor
  · intro h
    have hlong := h [{ nanoseconds := 2 ^ 64 }] (List.cons_ne_nil _ _) (by decide)
    exact absurd hlong.2.1 (by decide)
  · intro h
    have hmany : List.replicate (2 ^ 64) Duration.zero ≠ [] := by
      rw [Ne, List.replicate_eq_nil_iff]
      decide
    have hnone : ((List.replicate (2 ^ 64) Duration.zero).map Duration.nanoseconds).sum = 0 := by
      rw [List.map_replicate, List.sum_replicate]
      rfl
    obtain ⟨summary, hsteps⟩ := h _ hmany (by rw [hnone]; exact Nat.zero_le _)
    have hfew := Summary.count_of_foldlM_record? (by decide) hsteps
    rw [List.length_replicate] at hfew
    exact absurd hfew (Nat.not_lt.mpr (Nat.le_add_left _ _))

end Exports

end TimedHttp
