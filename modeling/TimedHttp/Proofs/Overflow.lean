import TimedHttp.Proofs.Aggregates

/-!
# A sum without room

A registry that keeps summaries counts a measurement first, and adds it to the sum of its key
second. If the sum has no room for it, the registry crashes between the two. The measurement is
counted then, though the sum and the longest are those of the measurements before it, and nothing
else has changed. Such a crash has no further consequences: the registry goes on to take all that it
has room for.

## Main statements

* `Store.gained_record` — a measurement is taken as a whole
* `Store.find_record_of_overflow` — what a crash leaves behind
* `Registry.memory_miscounts_only` — both of them, and what becomes of later measurements
-/

namespace TimedHttp

namespace Store

/-- **One measurement was taken** under a key, and nothing else has changed. -/
structure Gained (store last : Store) (key : TimerKey) (elapsed : Duration) : Prop where
  started : last.started = store.started
  recorded : last.recorded = store.recorded + 1
  others : ∀ other, other ≠ key → last.timers.get? other = store.timers.get? other
  summary : ∃ summary, last.timers.get? key = some summary ∧
    summary.count = (store.summary key).count + 1 ∧
    summary.total.nanoseconds = (store.summary key).total.nanoseconds + elapsed.nanoseconds ∧
    summary.max = (store.summary key).max.max elapsed

variable {store : Store} {timer : Timer} {elapsed : Duration}

theorem gained_record
    (h : (store.summary timer.key).total.nanoseconds + elapsed.nanoseconds ≤ maxNanoseconds) :
    store.Gained (store.record timer elapsed) timer.key elapsed := by
  refine ⟨rfl, recorded_record store timer elapsed, fun other hne => ?_, ?_⟩
  · rw [get?_record, if_neg hne]
  · refine ⟨_, by rw [get?_record, if_pos rfl], ?_, ?_, ?_⟩
    · exact Summary.count_record _ _
    · exact (Summary.overflows_eq_false h).2
    · exact Summary.max_record h

/-- Only a sum that has something in it can be without room. -/
theorem get?_of_overflow {key : TimerKey}
    (h : maxNanoseconds < (store.summary key).total.nanoseconds + elapsed.nanoseconds) :
    store.timers.get? key = some (store.summary key) := by
  unfold summary at h ⊢
  cases hs : store.timers.get? key with
  | some summary => rfl
  | none =>
    rw [hs] at h
    have hzero : ((none : Option Summary).getD {}).total.nanoseconds = 0 := rfl
    have hmax := elapsed.le_max
    omega

/-- **What a crash leaves behind**: under the key of the timer one more is counted. -/
theorem find_record_of_overflow
    (h : maxNanoseconds <
      (store.summary timer.key).total.nanoseconds + elapsed.nanoseconds) (name : String) :
    (store.record timer elapsed).find name = (store.find name).map fun found =>
      (found.1, if ⟨name, found.1⟩ = timer.key then { found.2 with count := found.2.count + 1 }
        else found.2) := by
  have hentries : (store.record timer elapsed).timers.entries = store.timers.entries.map fun e =>
      (e.1, if e.1 = timer.key then { e.2 with count := e.2.count + 1 } else e.2) := by
    refine (SortedMap.entries_update_of_get? (get?_of_overflow h) _).trans ?_
    refine List.map_congr_left fun e he => ?_
    -- what stands under the key is what the sum was looked up in
    by_cases hkey : e.1 = timer.key
    · have hsummary : e.2 = store.summary timer.key := by
        have hfound := SortedMap.get?_eq_some_iff.mpr (he : (e.1, e.2) ∈ store.timers.entries)
        rw [hkey, get?_of_overflow h] at hfound
        exact (Option.some.inj hfound).symm
      rw [if_pos hkey, if_pos hkey, hsummary, ← (Summary.record_of_overflow h).2]
      rfl
    · rw [if_neg hkey, if_neg hkey]
  simp only [find, hentries, List.filter_map, List.map_map]
  refine List.map_congr_left fun e he => ?_
  have hname : e.1.name = name := of_decide_eq_true (List.mem_filter.mp he).2
  subst hname
  rfl

end Store

namespace Registry

theorem verdict_memory_of_overflow {store : Store} {timer : Timer} {elapsed : Duration}
    (h : maxNanoseconds < (store.summary timer.key).total.nanoseconds + elapsed.nanoseconds)
    (a : Attribution) :
    (memory store).record timer elapsed a =
      (memory (store.record timer elapsed), [], .crashed sumOverflow) := by
  simp [record, recordInto, Store.overflows, (Summary.record_of_overflow h).1]

/-- **A crash over a sum miscounts, and does nothing else.** A measurement that the sum of its key
has room for is taken as a whole. Without room the registry crashes; then all that can be found is
as before, except that one more is counted under that key, and altogether. Whatever calls come after
that, a measurement that there is room for is taken. So after any calls a summary counts all that
was handed over under its key, while the sum and the longest are those of the measurements that
fitted.

A count of 64 bits is raised before the sum is. One more measurement, taken or not, leaves what is
said here just as long as there are fewer than 2^64 under its key, itself among them. The number of
all measurements is told if it has 64 bits. -/
theorem memory_miscounts_only (store : Store) (timer : Timer) (elapsed : Duration)
    (a : Attribution) :
    ((store.summary timer.key).total.nanoseconds + elapsed.nanoseconds ≤ maxNanoseconds →
      ∃ last, (memory store).record timer elapsed a = (memory last, [], .taken) ∧
        store.Gained last timer.key elapsed) ∧
    (maxNanoseconds < (store.summary timer.key).total.nanoseconds + elapsed.nanoseconds →
      ∃ last, (memory store).record timer elapsed a = (memory last, [], .crashed sumOverflow) ∧
        last.started = store.started ∧ last.recorded = store.recorded + 1 ∧
        (∀ name, last.find name = (store.find name).map fun found =>
          (found.1, if ⟨name, found.1⟩ = timer.key then
            { found.2 with count := found.2.count + 1 } else found.2)) ∧
        ∀ (calls : List Call) (later : Timer) (elapsed' : Duration) (a' : Attribution),
          ∃ between, (memory last).after calls = memory between ∧
            ((between.summary later.key).total.nanoseconds + elapsed'.nanoseconds ≤ maxNanoseconds →
              ∃ final, (memory between).record later elapsed' a' = (memory final, [], .taken) ∧
                between.Gained final later.key elapsed')) ∧
    ∀ (calls : List Call) (reached : Store), (memory {}).after calls = memory reached →
      (∀ key summary, reached.timers.get? key = some summary →
        summary.SumsUp (durationsUnder key calls) (fitting 0 (durationsUnder key calls))) ∧
      (∀ key further,
        (reached.summary key).recordInPlace further =
            (if (reached.summary key).overflows further then
              .error ((reached.summary key).record further)
            else .ok ((reached.summary key).record further)) ↔
          (durationsUnder key calls).length + 1 < 2 ^ 64) ∧
      (reached.recorded? = some reached.recorded ↔
        calls.countP Call.isMeasurement < 2 ^ 64) := by
  refine ⟨fun h => ⟨_, verdict_memory h a, Store.gained_record h⟩, fun h => ?_,
    fun calls reached hreached => ?_⟩
  · refine ⟨_, verdict_memory_of_overflow h a, rfl, Store.recorded_record _ _ _,
      Store.find_record_of_overflow h, fun calls later elapsed' a' => ?_⟩
    exact ⟨_, after_memory _ calls, fun h' => ⟨_, verdict_memory h' a', Store.gained_record h'⟩⟩
  · rw [after_memory] at hreached
    cases hreached
    refine ⟨fun key summary hsummary => Store.get?_after_iff.mp hsummary, fun key further => ?_, ?_⟩
    · rw [Summary.recordInPlace_eq_iff, Store.count_after_empty]
    · rw [Store.recorded?_eq_iff, Store.recorded_after_empty]

end Registry

/-! ## The longest duration, and one more nanosecond -/

namespace Exports

def longest : Duration := { nanoseconds := maxNanoseconds, le_max := Nat.le_refl _ }

def nanosecond : Duration := { nanoseconds := 1 }

/-- The store after a measurement of the longest duration. -/
def full : Store := ({} : Store).record (.named "jobs") longest

theorem full_is_full : maxNanoseconds <
    (full.summary (Timer.named "jobs").key).total.nanoseconds + nanosecond.nanoseconds := by
  rw [show (full.summary (Timer.named "jobs").key).total = longest by decide]
  exact Nat.lt_succ_self _

/-- The registry crashes over the nanosecond and counts it, and the sum is still the longest
duration. A measurement without duration is taken after that, and there is room for the nanosecond
under another name. -/
theorem nanosecond_miscounted :
    ((full.summary (Timer.named "mails").key).total.nanoseconds + nanosecond.nanoseconds ≤
        maxNanoseconds ∧
      ∃ last, (Registry.memory full).record (.named "mails") nanosecond (.ofRequest {}) =
        (.memory last, [], .taken)) ∧
    maxNanoseconds <
      (full.summary (Timer.named "jobs").key).total.nanoseconds + nanosecond.nanoseconds ∧
    ∃ last, (Registry.memory full).record (.named "jobs") nanosecond (.ofRequest {}) =
        (.memory last, [], .crashed Registry.sumOverflow) ∧
      last.recorded = 2 ∧
      last.find "jobs" = [(.empty, { count := 2, total := longest, max := longest })] ∧
      ∃ final, (Registry.memory last).record (.named "jobs") .zero (.ofRequest {}) =
        (.memory final, [], .taken) := by
  have hroom : (full.summary (Timer.named "mails").key).total.nanoseconds +
      nanosecond.nanoseconds ≤ maxNanoseconds := by decide
  obtain ⟨other, hother, -⟩ :=
    (Registry.memory_miscounts_only full (.named "mails") nanosecond (.ofRequest {})).1 hroom
  obtain ⟨last, hlast, -, hrecorded, hfind, hlater⟩ :=
    (Registry.memory_miscounts_only full (.named "jobs") nanosecond (.ofRequest {})).2.1
      full_is_full
  have hjobs : last.find "jobs" = [(.empty, { count := 2, total := longest, max := longest })] :=
    hfind "jobs"
  have hstill : last.timers.get? (Timer.named "jobs").key =
      some { count := 2, total := longest, max := longest } :=
    Store.mem_find_iff.mp (hjobs ▸ List.mem_singleton_self _)
  obtain ⟨between, hbetween, htaken⟩ := hlater [] (.named "jobs") .zero (.ofRequest {})
  obtain rfl : last = between := Registry.memory.inj hbetween
  have hzero : (last.summary (Timer.named "jobs").key).total.nanoseconds +
      Duration.zero.nanoseconds ≤ maxNanoseconds := by
    rw [Store.summary, hstill]
    exact Nat.le_refl _
  obtain ⟨final, hfinal, -⟩ := htaken hzero
  exact ⟨⟨hroom, other, hother⟩, full_is_full, last, hlast, hrecorded, hjobs, final, hfinal⟩

/-- **A crash leaves a trace.** It is not so that a measurement over which the registry crashes
leaves all that can be found as it was. -/
theorem crash_leaves_trace :
    ¬ ∀ (calls : List Call) (store last : Store) (timer : Timer) (elapsed : Duration)
        (a : Attribution) (message : String),
      (Registry.memory {}).after calls = .memory store →
      (Registry.memory store).record timer elapsed a = (.memory last, [], .crashed message) →
      last.recorded = store.recorded ∧ ∀ name, last.find name = store.find name := by
  intro hatomic
  have hfull : (Registry.memory {}).after [.recorded (.named "jobs") longest (.ofRequest {})] =
      .memory full := rfl
  obtain ⟨hrecorded, -⟩ := hatomic _ _ _ _ _ _ _ hfull
    (Registry.verdict_memory_of_overflow full_is_full (.ofRequest {}))
  rw [Store.recorded_record] at hrecorded
  exact Nat.succ_ne_self _ hrecorded

end Exports

end TimedHttp
