import Mathlib.Algebra.BigOperators.Group.List.Basic
import Mathlib.Algebra.Order.BigOperators.Group.List
import Mathlib.Algebra.Order.Ring.Nat
import TimedHttp.Metric.Summary

/-!
# What a summary tells

One duration after the other is recorded in a summary. It counts all of them. The sum takes each
that it has room for, and the longest is the longest of those that were taken.

The count has 64 bits. A measurement is taken field after field: the count is raised first, and each
step after it may fail. As long as the count has 64 bits, this leaves what is recorded at once.

## Main definitions

* `fitting` — the durations that a sum has room for
* `Summary.SumsUp` — what a summary tells of durations
* `Summary.recordInPlace`, `Summary.record?` — a measurement with a count of 64 bits

## Main statements

* `Summary.SumsUp.foldl` — what a summary becomes over a list of durations
* `Summary.recordInPlace_eq_iff` — field after field, or at once
* `Summary.foldlM_record?`, `Summary.count_of_foldlM_record?` — which durations can be recorded
-/

namespace TimedHttp

/-! ## One measurement -/

namespace Summary

theorem count_record (s : Summary) (elapsed : Duration) :
    (s.record elapsed).count = s.count + 1 := by
  unfold record
  split <;> rfl

theorem overflows_eq_false {s : Summary} {elapsed : Duration}
    (h : s.total.nanoseconds + elapsed.nanoseconds ≤ maxNanoseconds) :
    s.overflows elapsed = false ∧
      (s.record elapsed).total.nanoseconds = s.total.nanoseconds + elapsed.nanoseconds := by
  have hsum : s.total.add? elapsed = some ⟨s.total.nanoseconds + elapsed.nanoseconds, h⟩ :=
    Duration.add?_eq_some_iff.mpr rfl
  simp [overflows, record, hsum]

theorem max_record {s : Summary} {elapsed : Duration}
    (h : s.total.nanoseconds + elapsed.nanoseconds ≤ maxNanoseconds) :
    (s.record elapsed).max = s.max.max elapsed := by
  have hsum : s.total.add? elapsed = some ⟨s.total.nanoseconds + elapsed.nanoseconds, h⟩ :=
    Duration.add?_eq_some_iff.mpr rfl
  simp [record, hsum]

/-- **A sum without room**: the measurement is counted, and nothing else changes. -/
theorem record_of_overflow {s : Summary} {elapsed : Duration}
    (h : maxNanoseconds < s.total.nanoseconds + elapsed.nanoseconds) :
    s.overflows elapsed = true ∧ s.record elapsed = { s with count := s.count + 1 } := by
  have hsum : s.total.add? elapsed = none := by
    rw [Option.eq_none_iff_forall_ne_some]
    intro total htotal
    have := Duration.add?_eq_some_iff.mp htotal
    have := total.le_max
    omega
  simp [overflows, record, hsum]

end Summary

/-! ## One measurement after the other -/

/-- **The durations that fit**: a sum that stands at `total` takes them one by one, and leaves out
each that it has no room for. -/
def fitting : Nat → List Duration → List Duration
  | _, [] => []
  | total, elapsed :: rest =>
    if total + elapsed.nanoseconds ≤ maxNanoseconds then
      elapsed :: fitting (total + elapsed.nanoseconds) rest
    else fitting total rest

theorem fitting_sublist (total : Nat) (durations : List Duration) :
    (fitting total durations).Sublist durations := by
  induction durations generalizing total with
  | nil => exact .slnil
  | cons elapsed rest ih =>
    simp only [fitting]
    split
    · exact (ih _).cons_cons elapsed
    · exact (ih _).cons elapsed

theorem fitting_eq_self {total : Nat} {durations : List Duration}
    (h : total + (durations.map Duration.nanoseconds).sum ≤ maxNanoseconds) :
    fitting total durations = durations := by
  induction durations generalizing total with
  | nil => rfl
  | cons elapsed rest ih =>
    rw [List.map_cons, List.sum_cons] at h
    rw [fitting, if_pos (by omega), ih (by omega)]

theorem fitting_zero_cons (elapsed : Duration) (rest : List Duration) :
    fitting 0 (elapsed :: rest) = elapsed :: fitting elapsed.nanoseconds rest := by
  have hfits : 0 + elapsed.nanoseconds ≤ maxNanoseconds := by
    rw [Nat.zero_add]
    exact elapsed.le_max
  rw [fitting, if_pos hfits, Nat.zero_add]

namespace Summary

/-- **A summary sums up durations**: it counts those that were handed over, and has the sum and the
longest of those that were taken, of which there is one at least. -/
structure SumsUp (s : Summary) (handed taken : List Duration) : Prop where
  count : s.count = handed.length
  total : s.total.nanoseconds = (taken.map Duration.nanoseconds).sum
  max : (taken.map Duration.nanoseconds).max? = some s.max.nanoseconds

namespace SumsUp

variable {s : Summary} {handed taken : List Duration} {elapsed : Duration}

theorem first (elapsed : Duration) :
    (({} : Summary).record elapsed).SumsUp [elapsed] [elapsed] := by
  have hfits : ({} : Summary).total.nanoseconds + elapsed.nanoseconds ≤ maxNanoseconds := by
    rw [show ({} : Summary).total.nanoseconds = 0 from rfl, Nat.zero_add]
    exact elapsed.le_max
  refine ⟨count_record _ _, ?_, ?_⟩
  · rw [(overflows_eq_false hfits).2]
    exact Nat.add_comm _ _
  · rw [max_record hfits, Duration.nanoseconds_max]
    exact congrArg some (Nat.zero_max _).symm

theorem record_fits (h : s.SumsUp handed taken)
    (hfits : s.total.nanoseconds + elapsed.nanoseconds ≤ maxNanoseconds) :
    (s.record elapsed).SumsUp (handed ++ [elapsed]) (taken ++ [elapsed]) := by
  refine ⟨?_, ?_, ?_⟩
  · rw [count_record, h.count, List.length_append, List.length_singleton]
  · rw [(overflows_eq_false hfits).2, h.total, List.map_append, List.sum_append]
    simp
  · obtain ⟨hmem, hle⟩ := List.max?_eq_some_iff.mp h.max
    -- the longest of all is the longer of the last one and the longest before
    rw [max_record hfits, Duration.nanoseconds_max, List.max?_eq_some_iff]
    rw [List.map_append, List.map_singleton]
    refine ⟨?_, fun n hn => ?_⟩
    · rcases Nat.le_total s.max.nanoseconds elapsed.nanoseconds with hl | hl
      · exact List.mem_append_right _ (List.mem_singleton.mpr (Nat.max_eq_right hl))
      · have hmax : s.max.nanoseconds.max elapsed.nanoseconds = s.max.nanoseconds :=
          Nat.max_eq_left hl
        rw [hmax]
        exact List.mem_append_left _ hmem
    · rcases List.mem_append.mp hn with hn | hn
      · exact Nat.le_trans (hle n hn) (Nat.le_max_left _ _)
      · rw [List.mem_singleton.mp hn]
        exact Nat.le_max_right _ _

theorem record_overflows (h : s.SumsUp handed taken)
    (hfull : maxNanoseconds < s.total.nanoseconds + elapsed.nanoseconds) :
    (s.record elapsed).SumsUp (handed ++ [elapsed]) taken := by
  rw [(record_of_overflow hfull).2]
  refine ⟨?_, h.total, h.max⟩
  rw [List.length_append, ← h.count]
  rfl

/-- **Over a list of durations**, the summary counts all of them, and takes those that fit. -/
theorem foldl (h : s.SumsUp handed taken) (durations : List Duration) :
    (durations.foldl Summary.record s).SumsUp (handed ++ durations)
      (taken ++ fitting s.total.nanoseconds durations) := by
  induction durations generalizing s handed taken with
  | nil => simpa [fitting] using h
  | cons elapsed rest ih =>
    rw [List.foldl_cons, fitting]
    -- in both cases the sum stands where `fitting` goes on
    split
    next hfits =>
      have hrest := ih (h.record_fits hfits)
      rw [(overflows_eq_false hfits).2] at hrest
      simpa using hrest
    next hfull =>
      have hrest := ih (h.record_overflows (Nat.lt_of_not_le hfull))
      rw [(record_of_overflow (Nat.lt_of_not_le hfull)).2] at hrest
      simpa [(record_of_overflow (Nat.lt_of_not_le hfull)).2] using hrest

theorem of_ne_nil {durations : List Duration} (h : durations ≠ []) :
    (durations.foldl Summary.record {}).SumsUp durations (fitting 0 durations) := by
  match durations, h with
  | elapsed :: rest, _ =>
    have hfits : ({} : Summary).total.nanoseconds + elapsed.nanoseconds ≤ maxNanoseconds := by
      rw [show ({} : Summary).total.nanoseconds = 0 from rfl, Nat.zero_add]
      exact elapsed.le_max
    have hrest := (first elapsed).foldl rest
    rw [(overflows_eq_false hfits).2, show ({} : Summary).total.nanoseconds = 0 from rfl,
      Nat.zero_add] at hrest
    rw [fitting_zero_cons]
    exact hrest

/-- The durations determine the summary. -/
theorem unique {t : Summary} (hs : s.SumsUp handed taken) (ht : t.SumsUp handed taken) : s = t := by
  have hmax : s.max = t.max := Duration.ext (Option.some.inj (hs.max.symm.trans ht.max))
  obtain ⟨count, total, max⟩ := s
  obtain ⟨count', total', max'⟩ := t
  obtain rfl : count = count' := hs.count.trans ht.count.symm
  obtain rfl : total = total' := Duration.ext (hs.total.trans ht.total.symm)
  obtain rfl : max = max' := hmax
  rfl

theorem perm {handed' taken' : List Duration} (h : s.SumsUp handed taken)
    (hhanded : handed.Perm handed') (htaken : taken.Perm taken') : s.SumsUp handed' taken' := by
  refine ⟨h.count.trans hhanded.length_eq, h.total.trans (htaken.map _).sum_eq, ?_⟩
  obtain ⟨hmem, hle⟩ := List.max?_eq_some_iff.mp h.max
  refine List.max?_eq_some_iff.mpr ⟨(htaken.map _).mem_iff.mp hmem, fun n hn => ?_⟩
  exact hle n ((htaken.map _).mem_iff.mpr hn)

/-- The longest is not longer than the sum, nor the sum than that many times the longest. -/
theorem bounds (h : s.SumsUp handed taken) (hsub : taken.Sublist handed) :
    s.max.nanoseconds ≤ s.total.nanoseconds ∧
      s.total.nanoseconds ≤ s.count * s.max.nanoseconds := by
  obtain ⟨hmem, hle⟩ := List.max?_eq_some_iff.mp h.max
  rw [h.total, h.count]
  refine ⟨List.single_le_sum (fun _ _ => Nat.zero_le _) _ hmem, ?_⟩
  calc (taken.map Duration.nanoseconds).sum
      ≤ (taken.map Duration.nanoseconds).length • s.max.nanoseconds :=
        List.sum_le_card_nsmul _ _ hle
    _ = taken.length * s.max.nanoseconds := by rw [List.length_map]; rfl
    _ ≤ handed.length * s.max.nanoseconds := Nat.mul_le_mul_right _ hsub.length_le

end SumsUp

end Summary

/-! ## A count of 64 bits -/

/-- The number, if it has no more than so many bits. -/
def fit? (bits n : Nat) : Option Nat := if n < 2 ^ bits then some n else none

theorem fit?_of_lt {bits n : Nat} (h : n < 2 ^ bits) : fit? bits n = some n := if_pos h

namespace Summary

/-- **A measurement field after field**, with a count of 64 bits: what has been written in the end,
or where it was stopped by the count or by the sum. -/
def recordInPlace (s : Summary) (elapsed : Duration) : Except Summary Summary :=
  match fit? 64 (s.count + 1) with
  | none => .error s
  | some count =>
    match s.total.add? elapsed with
    | none => .error { s with count }
    | some total => .ok { count, total, max := s.max.max elapsed }

/-- Takes one measurement in, with a count of 64 bits. -/
def record? (s : Summary) (elapsed : Duration) : Option Summary := do
  let count ← fit? 64 (s.count + 1)
  let total ← s.total.add? elapsed
  some { count, total, max := s.max.max elapsed }

variable {s : Summary} {elapsed : Duration}

/-- **Field after field, or at once**: that makes no difference just as long as the count has
64 bits. -/
theorem recordInPlace_eq_iff :
    s.recordInPlace elapsed =
        (if s.overflows elapsed then .error (s.record elapsed) else .ok (s.record elapsed)) ↔
      s.count + 1 < 2 ^ 64 := by
  constructor
  · intro hwritten
    by_contra hwide
    have hstopped : s.recordInPlace elapsed = .error s := by
      rw [recordInPlace, fit?, if_neg hwide]
    rw [hstopped] at hwritten
    -- the count is as before, and would have been raised
    cases hfull : s.overflows elapsed with
    | false =>
      rw [hfull] at hwritten
      cases hwritten
    | true =>
      rw [hfull] at hwritten
      have hcount := congrArg Summary.count (Except.error.inj hwritten)
      rw [count_record] at hcount
      exact Nat.succ_ne_self _ hcount.symm
  · intro hcount
    rw [recordInPlace, fit?_of_lt hcount, overflows, record]
    cases s.total.add? elapsed <;> rfl

theorem record?_eq_some_iff {next : Summary} :
    s.record? elapsed = some next ↔
      s.count + 1 < 2 ^ 64 ∧ s.overflows elapsed = false ∧ s.record elapsed = next := by
  rw [record?, overflows, record]
  by_cases hcount : s.count + 1 < 2 ^ 64
  · rw [fit?_of_lt hcount, and_iff_right hcount]
    cases s.total.add? elapsed <;> simp
  · rw [fit?, if_neg hcount]
    exact ⟨nofun, fun h => absurd h.1 hcount⟩

/-- **Neither count nor sum overflows** while there is room for all durations. -/
theorem foldlM_record? {durations : List Duration}
    (hcount : s.count + durations.length < 2 ^ 64)
    (hroom : s.total.nanoseconds + (durations.map Duration.nanoseconds).sum ≤ maxNanoseconds) :
    durations.foldlM record? s = some (durations.foldl record s) := by
  induction durations generalizing s with
  | nil => rfl
  | cons elapsed rest ih =>
    rw [List.length_cons] at hcount
    rw [List.map_cons, List.sum_cons] at hroom
    have hfits : s.total.nanoseconds + elapsed.nanoseconds ≤ maxNanoseconds := by omega
    have hstep : s.record? elapsed = some (s.record elapsed) :=
      record?_eq_some_iff.mpr ⟨by omega, (overflows_eq_false hfits).1, rfl⟩
    rw [List.foldlM_cons, hstep, List.foldl_cons]
    apply ih
    · rw [count_record]
      omega
    · rw [(overflows_eq_false hfits).2]
      omega

/-- One measurement after the other raises the count, which has no more than 64 bits. -/
theorem count_of_foldlM_record? {durations : List Duration} {last : Summary}
    (hcount : s.count < 2 ^ 64) (h : durations.foldlM record? s = some last) :
    s.count + durations.length < 2 ^ 64 := by
  induction durations generalizing s with
  | nil => exact hcount
  | cons elapsed rest ih =>
    rw [List.foldlM_cons] at h
    obtain ⟨next, hnext, hrest⟩ := Option.bind_eq_some_iff.mp h
    obtain ⟨hfits, -, rfl⟩ := record?_eq_some_iff.mp hnext
    rw [← count_record s elapsed] at hfits
    have hlast := ih hfits hrest
    rw [count_record] at hlast
    rw [List.length_cons]
    omega

end Summary

end TimedHttp
