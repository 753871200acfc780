import TimedHttp.Metric.Registry
import TimedHttp.Proofs.Summaries

/-!
# What a store adds up

A registry that keeps summaries is told of samples and handed measurements, in some order. Each key
is summed up from what was handed over under it alone: the number of measurements, their sum and the
longest. A measurement whose time the sum has no room for is counted, and left out of sum and
maximum. As long as there is room for all, the order makes no difference.

## Main definitions

* `Registry.ask`, `Registry.after`, `Registry.verdicts` — a registry answers calls, one by one
* `durationsUnder` — what calls hand over under a key
* `Store.hear?`, `Store.recorded?` — the same in numbers of 64 bits

## Main statements

* `Store.get?_after` — a key is summed up from its own durations
* `Store.get?_after_iff` — the summaries after any calls
* `Store.foldlM_hear?_iff` — which calls can be heard in 64 bits
* `Registry.memory_adds_up` — the whole of it, if there is room for all
-/

namespace TimedHttp

/-! ## Registries and calls -/

namespace Call

def isMeasurement : Call → Bool
  | started _ => false
  | recorded .. => true

/-- The time that is handed over under the key, if any. -/
def durationUnder? (key : TimerKey) : Call → Option Duration
  | started _ => none
  | recorded timer elapsed _ => if timer.key = key then some elapsed else none

end Call

/-- What calls hand over under a key, in order. -/
def durationsUnder (key : TimerKey) (calls : List Call) : List Duration :=
  calls.filterMap (Call.durationUnder? key)

theorem durationsUnder_perm {calls calls' : List Call} (h : calls.Perm calls') (key : TimerKey) :
    (durationsUnder key calls).Perm (durationsUnder key calls') :=
  h.filterMap _

def Call.nanoseconds : Call → Nat
  | started _ => 0
  | recorded _ elapsed _ => elapsed.nanoseconds

theorem sum_durationsUnder_le (key : TimerKey) (calls : List Call) :
    ((durationsUnder key calls).map Duration.nanoseconds).sum ≤
      (calls.map Call.nanoseconds).sum := by
  induction calls with
  | nil => exact Nat.le_refl _
  | cons call calls ih =>
    rw [durationsUnder, List.filterMap_cons, List.map_cons, List.sum_cons]
    cases call with
    | started a =>
      rw [Call.nanoseconds, Nat.zero_add]
      exact ih
    | recorded timer elapsed a =>
      by_cases hkey : timer.key = key
      · simp only [Call.durationUnder?, if_pos hkey, List.map_cons, List.sum_cons]
        exact Nat.add_le_add_left ih _
      · simp only [Call.durationUnder?, if_neg hkey]
        exact Nat.le_trans ih (Nat.le_add_left _ _)

namespace Registry

/-- **A registry is asked**: what it is after the call, and its verdict. At the start of a sample
that says no more than whether it crashed. -/
def ask (r : Registry) : Call → Registry × Verdict
  | .started a => ((r.start a).1, (r.start a).2.2.elim .taken .crashed)
  | .recorded timer elapsed a => ((r.record timer elapsed a).1, (r.record timer elapsed a).2.2)

def after (r : Registry) (calls : List Call) : Registry :=
  calls.foldl (fun r call => (r.ask call).1) r

def verdicts : Registry → List Call → List Verdict
  | _, [] => []
  | r, call :: calls => (r.ask call).2 :: (r.ask call).1.verdicts calls

end Registry

namespace Store

theorem ext {s t : Store} (hstarted : s.started = t.started) (htimers : s.timers = t.timers) :
    s = t := by
  cases s; cases t; cases hstarted; cases htimers; rfl

theorem get?_record (s : Store) (timer : Timer) (elapsed : Duration) (key : TimerKey) :
    (s.record timer elapsed).timers.get? key =
      if key = timer.key then some ((s.summary timer.key).record elapsed)
      else s.timers.get? key :=
  SortedMap.get?_update _ _ _ _

theorem summary_record (s : Store) (timer : Timer) (elapsed : Duration) (key : TimerKey) :
    (s.record timer elapsed).summary key =
      if key = timer.key then (s.summary timer.key).record elapsed else s.summary key := by
  unfold summary
  rw [get?_record]
  split
  · rfl
  · rfl

/-- What is recorded depends on the summary that was there. -/
theorem record_eq_update (s : Store) (timer : Timer) (elapsed : Duration) :
    s.record timer elapsed = { s with
      timers := s.timers.update timer.key fun _ => (s.summary timer.key).record elapsed } := by
  refine ext rfl (SortedMap.ext_get? fun key => ?_)
  rw [get?_record, SortedMap.get?_update]

theorem recorded_record (s : Store) (timer : Timer) (elapsed : Duration) :
    (s.record timer elapsed).recorded = s.recorded + 1 := by
  let f := fun old : Option Summary => (old.getD {}).record elapsed
  -- the induction is on the entries, along which the key is searched
  have hsum : ∀ l : List (TimerKey × Summary),
      ((SortedMap.updateEntries timer.key f l).map fun e => e.2.count).sum =
        (l.map fun e => e.2.count).sum + 1 := by
    intro l
    induction l with
    | nil => simp [SortedMap.updateEntries, f, Summary.count_record]
    | cons head rest ih =>
      obtain ⟨key, summary⟩ := head
      simp only [SortedMap.updateEntries]
      split
      · simp [f, Summary.count_record]
        omega
      · simp [f, Summary.count_record]
        omega
      · simp only [List.map_cons, List.sum_cons, ih]
        omega
  exact hsum s.timers.entries

def hear (s : Store) : Call → Store
  | .started _ => s.start
  | .recorded timer elapsed _ => s.record timer elapsed

def after (s : Store) (calls : List Call) : Store := calls.foldl hear s

theorem after_cons (s : Store) (call : Call) (calls : List Call) :
    s.after (call :: calls) = (s.hear call).after calls := rfl

/-- A call concerns the key under which it hands over a time, and no other. -/
theorem get?_hear (s : Store) (call : Call) (key : TimerKey) :
    (s.hear call).timers.get? key =
      match call.durationUnder? key with
      | none => s.timers.get? key
      | some elapsed => some ((s.summary key).record elapsed) := by
  cases call with
  | started a => rfl
  | recorded timer elapsed a =>
    simp only [hear, get?_record, Call.durationUnder?]
    by_cases hkey : timer.key = key
    · subst hkey
      simp
    · simp [hkey, Ne.symm hkey]

theorem summary_hear (s : Store) (call : Call) (key : TimerKey) :
    (s.hear call).summary key =
      match call.durationUnder? key with
      | none => s.summary key
      | some elapsed => (s.summary key).record elapsed := by
  simp only [summary, get?_hear]
  split
  · rfl
  · rfl

/-! ## Any number of calls -/

/-- **A key is summed up from its own durations**, whatever calls come between them. -/
theorem get?_after (s : Store) (calls : List Call) (key : TimerKey) :
    (s.after calls).timers.get? key =
      if durationsUnder key calls = [] then s.timers.get? key
      else some ((durationsUnder key calls).foldl Summary.record (s.summary key)) := by
  induction calls generalizing s with
  | nil => rfl
  | cons call calls ih =>
    rw [after_cons, ih, get?_hear, summary_hear, durationsUnder, durationsUnder,
      List.filterMap_cons]
    -- a call that does not concern the key changes neither side
    cases call.durationUnder? key with
    | none => rfl
    | some elapsed =>
      simp only [List.foldl_cons, List.cons_ne_nil, if_false]
      split
      next hnil => rw [hnil, List.foldl_nil]
      next => rfl

theorem started_after (s : Store) (calls : List Call) :
    (s.after calls).started = s.started + calls.countP fun call => !call.isMeasurement := by
  induction calls generalizing s with
  | nil => rfl
  | cons call calls ih =>
    rw [after_cons, ih, List.countP_cons]
    cases call with
    | started a =>
      show s.started + 1 + _ = s.started + (_ + 1)
      omega
    | recorded timer elapsed a => rfl

theorem recorded_after (s : Store) (calls : List Call) :
    (s.after calls).recorded = s.recorded + calls.countP Call.isMeasurement := by
  induction calls generalizing s with
  | nil => rfl
  | cons call calls ih =>
    rw [after_cons, ih, List.countP_cons]
    cases call with
    | started a => simp [hear, start, recorded, Call.isMeasurement]
    | recorded timer elapsed a =>
      simp only [hear, recorded_record, Call.isMeasurement, if_true]
      omega

theorem recorded_after_empty (calls : List Call) :
    (({} : Store).after calls).recorded = calls.countP Call.isMeasurement := by
  rw [recorded_after]
  exact Nat.zero_add _

end Store

namespace Registry

/-- A registry that keeps summaries hears a call, and crashes over a sum without room. -/
theorem ask_memory (s : Store) (call : Call) :
    ((memory s).ask call).1 = memory (s.hear call) := by
  cases call <;> rfl

theorem after_memory (s : Store) (calls : List Call) :
    (memory s).after calls = memory (s.after calls) := by
  induction calls generalizing s with
  | nil => rfl
  | cons call calls ih =>
    show ((memory s).ask call).1.after calls = memory ((s.hear call).after calls)
    rw [ask_memory, ih]

end Registry

/-! ## Summaries after any calls -/

namespace Store

/-- **The summaries after any calls**: a key has one as soon as something was handed over under it,
and it counts all that was, and takes what fits. -/
theorem get?_after_iff {calls : List Call} {key : TimerKey} {summary : Summary} :
    (({} : Store).after calls).timers.get? key = some summary ↔
      summary.SumsUp (durationsUnder key calls) (fitting 0 (durationsUnder key calls)) := by
  rw [get?_after]
  split
  next hnil =>
    rw [hnil]
    exact ⟨nofun, fun h => nomatch h.max⟩
  next hne =>
    have hfirst : ({} : Store).summary key = {} := rfl
    have hsums := Summary.SumsUp.of_ne_nil hne
    rw [hfirst, Option.some.injEq]
    exact ⟨fun h => h ▸ hsums, hsums.unique⟩

theorem isSome_get?_after {calls : List Call} {key : TimerKey} :
    ((({} : Store).after calls).timers.get? key).isSome ↔ durationsUnder key calls ≠ [] := by
  rw [get?_after]
  split
  next hnil => simp [hnil, SortedMap.get?_empty]
  next hne => simp [hne]

theorem mem_find_iff {s : Store} {name : String} {tags : Tags} {summary : Summary} :
    (tags, summary) ∈ s.find name ↔ s.timers.get? ⟨name, tags⟩ = some summary := by
  rw [SortedMap.get?_eq_some_iff]
  simp only [find, List.mem_map, List.mem_filter, decide_eq_true_eq, Prod.mk.injEq]
  constructor
  · rintro ⟨⟨⟨n, t⟩, s⟩, ⟨hmem, rfl⟩, rfl, rfl⟩
    exact hmem
  · intro hmem
    exact ⟨_, ⟨hmem, rfl⟩, rfl, rfl⟩

/-- No tag set is found twice under a name. -/
theorem nodup_find (s : Store) (name : String) : ((s.find name).map Prod.fst).Nodup := by
  rw [find, List.map_map, List.Nodup, List.pairwise_map]
  refine (s.timers.increasing.filter _).imp_of_mem fun {e f} he hf hlt heq => ?_
  have hname : ∀ g ∈ s.timers.entries.filter fun entry => entry.1.name = name,
      g.1.name = name := fun g hg => of_decide_eq_true (List.mem_filter.mp hg).2
  have hkey : e.1 = f.1 := by
    rw [show e.1 = ⟨e.1.name, e.1.tags⟩ from rfl, hname e he, show e.1.tags = f.1.tags from heq,
      ← hname f hf]
  rw [hkey, Std.compare_self] at hlt
  cases hlt

/-- **There is room** for all that some calls hand over. -/
def HasRoom (s : Store) (calls : List Call) : Prop :=
  ∀ key, (s.summary key).total.nanoseconds +
    ((durationsUnder key calls).map Duration.nanoseconds).sum ≤ maxNanoseconds

theorem HasRoom.fits {s : Store} {timer : Timer} {elapsed : Duration} {a : Attribution}
    {calls : List Call} (h : s.HasRoom (.recorded timer elapsed a :: calls)) :
    (s.summary timer.key).total.nanoseconds + elapsed.nanoseconds ≤ maxNanoseconds := by
  have hkey := h timer.key
  simp only [durationsUnder, List.filterMap_cons, Call.durationUnder?, if_true, List.map_cons,
    List.sum_cons] at hkey
  omega

theorem HasRoom.tail {s : Store} {call : Call} {calls : List Call}
    (h : s.HasRoom (call :: calls)) : s.HasRoom calls := fun key => by
  have hsub : (durationsUnder key calls).Sublist (durationsUnder key (call :: calls)) :=
    (List.sublist_cons_self call calls).filterMap _
  have hsum := (hsub.map Duration.nanoseconds).sum_le_sum fun _ _ => Nat.zero_le _
  exact Nat.le_trans (Nat.add_le_add_left hsum _) (h key)

theorem HasRoom.hear {s : Store} {call : Call} {calls : List Call} (h : s.HasRoom (call :: calls)) :
    (s.hear call).HasRoom calls := by
  intro key
  have hkey := h key
  rw [durationsUnder, List.filterMap_cons] at hkey
  rw [summary_hear]
  cases hd : call.durationUnder? key with
  | none =>
    rw [hd] at hkey
    exact hkey
  | some elapsed =>
    rw [hd] at hkey
    simp only [List.map_cons, List.sum_cons] at hkey
    have hfits : (s.summary key).total.nanoseconds + elapsed.nanoseconds ≤ maxNanoseconds := by
      omega
    show ((s.summary key).record elapsed).total.nanoseconds + _ ≤ _
    rw [(Summary.overflows_eq_false hfits).2, Nat.add_assoc]
    exact hkey

theorem HasRoom.fitting {calls : List Call} (h : ({} : Store).HasRoom calls) (key : TimerKey) :
    fitting 0 (durationsUnder key calls) = durationsUnder key calls :=
  fitting_eq_self (h key)

/-- **The order makes no difference**, if there is room for all. -/
theorem HasRoom.after_perm {calls calls' : List Call} (h : ({} : Store).HasRoom calls)
    (hperm : calls.Perm calls') : ({} : Store).after calls' = ({} : Store).after calls := by
  have hroom : ({} : Store).HasRoom calls' := fun key => by
    rw [← ((durationsUnder_perm hperm key).map _).sum_eq]
    exact h key
  have htimers : (({} : Store).after calls').timers = (({} : Store).after calls).timers := by
    -- a summary only counts, adds and compares what was handed over, which knows no order
    refine SortedMap.ext_get? fun key => Option.ext fun summary => ?_
    rw [get?_after_iff, get?_after_iff, hroom.fitting, h.fitting]
    have hdurations := durationsUnder_perm hperm key
    exact ⟨fun hs => hs.perm hdurations.symm hdurations.symm,
      fun hs => hs.perm hdurations hdurations⟩
  have hstarted : (({} : Store).after calls').started = (({} : Store).after calls).started := by
    rw [started_after, started_after, hperm.countP_eq]
  exact ext hstarted htimers

/-! ## Numbers of 64 bits -/

/-- The numbers of a store have 64 bits. -/
structure Narrow (s : Store) : Prop where
  started : s.started < 2 ^ 64
  count : ∀ key, (s.summary key).count < 2 ^ 64

theorem narrow_empty : ({} : Store).Narrow :=
  ⟨Nat.two_pow_pos 64, fun _ => Nat.two_pow_pos 64⟩

/-- Hears a call, with numbers of 64 bits. -/
def hear? (s : Store) : Call → Option Store
  | .started _ => do
    let started ← fit? 64 (s.started + 1)
    some { s with started }
  | .recorded timer elapsed _ => do
    let summary ← (s.summary timer.key).record? elapsed
    some { s with timers := s.timers.update timer.key fun _ => summary }

/-- The number of measurements taken, summed up in 64 bits. -/
def recorded? (s : Store) : Option Nat :=
  s.timers.entries.foldlM (fun sum entry => fit? 64 (sum + entry.2.count)) 0

theorem count_summary_after (s : Store) (calls : List Call) (key : TimerKey) :
    ((s.after calls).summary key).count =
      (s.summary key).count + (durationsUnder key calls).length := by
  induction calls generalizing s with
  | nil => rfl
  | cons call calls ih =>
    rw [after_cons, ih, summary_hear, durationsUnder, durationsUnder, List.filterMap_cons]
    cases call.durationUnder? key with
    | none => rfl
    | some elapsed =>
      show ((s.summary key).record elapsed).count + _ = _
      rw [Summary.count_record, List.length_cons]
      omega

theorem count_after_empty (calls : List Call) (key : TimerKey) :
    ((({} : Store).after calls).summary key).count = (durationsUnder key calls).length := by
  rw [count_summary_after]
  exact Nat.zero_add _

theorem narrow_after_iff {calls : List Call} :
    (({} : Store).after calls).Narrow ↔
      (calls.countP fun call => !call.isMeasurement) < 2 ^ 64 ∧
        ∀ key, (durationsUnder key calls).length < 2 ^ 64 := by
  have hstarted : (({} : Store).after calls).started =
      calls.countP fun call => !call.isMeasurement := by
    rw [started_after]
    exact Nat.zero_add _
  constructor
  · intro h
    exact ⟨hstarted ▸ h.started, fun key => count_after_empty calls key ▸ h.count key⟩
  · intro h
    exact ⟨hstarted ▸ h.1, fun key => count_after_empty calls key ▸ h.2 key⟩

/-- Numbers only grow. -/
theorem Narrow.of_after {s : Store} {calls : List Call} (h : (s.after calls).Narrow) :
    s.Narrow := by
  refine ⟨?_, fun key => ?_⟩
  · have hstarted := h.started
    rw [started_after] at hstarted
    omega
  · have hcount := h.count key
    rw [count_summary_after] at hcount
    omega

theorem Narrow.start_iff {s : Store} (hs : s.Narrow) :
    s.start.Narrow ↔ s.started + 1 < 2 ^ 64 :=
  ⟨fun h => h.started, fun h => ⟨h, hs.count⟩⟩

theorem Narrow.record_iff {s : Store} (hs : s.Narrow) (timer : Timer) (elapsed : Duration) :
    (s.record timer elapsed).Narrow ↔ (s.summary timer.key).count + 1 < 2 ^ 64 := by
  constructor
  · intro h
    have htimer := h.count timer.key
    rwa [summary_record, if_pos rfl, Summary.count_record] at htimer
  · intro h
    refine ⟨hs.started, fun key => ?_⟩
    rw [summary_record]
    split
    · rwa [Summary.count_record]
    · exact hs.count key

/-- **A call in 64 bits** is heard as it is, if the numbers have as many bits after it, and
otherwise not at all. -/
theorem hear?_eq_some_iff {s next : Store} {call : Call} {calls : List Call} (hs : s.Narrow)
    (hroom : s.HasRoom (call :: calls)) :
    s.hear? call = some next ↔ (s.hear call).Narrow ∧ s.hear call = next := by
  cases call with
  | started a =>
    rw [hear, hs.start_iff, hear?]
    by_cases hfits : s.started + 1 < 2 ^ 64
    · rw [fit?_of_lt hfits, and_iff_right hfits]
      exact ⟨Option.some.inj, congrArg some⟩
    · rw [fit?, if_neg hfits]
      exact ⟨fun h => (by cases h), fun h => absurd h.1 hfits⟩
  | recorded timer elapsed a =>
    rw [hear, hs.record_iff timer elapsed, record_eq_update, hear?]
    by_cases hfew : (s.summary timer.key).count + 1 < 2 ^ 64
    · have hfits := (Summary.overflows_eq_false hroom.fits).1
      rw [Summary.record?_eq_some_iff.mpr ⟨hfew, hfits, rfl⟩, and_iff_right hfew]
      exact ⟨Option.some.inj, congrArg some⟩
    · refine ⟨fun h => ?_, fun h => absurd h.1 hfew⟩
      obtain ⟨summary, hsummary, -⟩ := Option.bind_eq_some_iff.mp h
      exact absurd (Summary.record?_eq_some_iff.mp hsummary).1 hfew

/-- **Calls in 64 bits**: if there is room for all durations, they are heard just as long as the
numbers have as many bits in the end. -/
theorem foldlM_hear?_iff {s : Store} {calls : List Call} (hs : s.Narrow) (hroom : s.HasRoom calls) :
    calls.foldlM hear? s = some (s.after calls) ↔ (s.after calls).Narrow := by
  induction calls generalizing s with
  | nil => exact ⟨fun _ => hs, fun _ => rfl⟩
  | cons call calls ih =>
    rw [after_cons, List.foldlM_cons]
    constructor
    · intro h
      obtain ⟨next, hnext, hrest⟩ := Option.bind_eq_some_iff.mp h
      obtain ⟨hnarrow, rfl⟩ := (hear?_eq_some_iff hs hroom).mp hnext
      exact (ih hnarrow hroom.hear).mp hrest
    · intro h
      have hnext := (hear?_eq_some_iff hs hroom).mpr ⟨h.of_after, rfl⟩
      rw [hnext]
      exact (ih h.of_after hroom.hear).mpr h

theorem recorded?_eq_iff (s : Store) :
    s.recorded? = some s.recorded ↔ s.recorded < 2 ^ 64 := by
  have hsum : ∀ (l : List (TimerKey × Summary)) (start : Nat), start < 2 ^ 64 →
      (l.foldlM (fun sum entry => fit? 64 (sum + entry.2.count)) start =
          some (start + (l.map fun entry => entry.2.count).sum) ↔
        start + (l.map fun entry => entry.2.count).sum < 2 ^ 64) := by
    intro l
    induction l with
    | nil => exact fun start hstart => ⟨fun _ => hstart, fun _ => rfl⟩
    | cons head rest ih =>
      intro start hstart
      rw [List.map_cons, List.sum_cons, ← Nat.add_assoc, List.foldlM_cons]
      by_cases hfits : start + head.2.count < 2 ^ 64
      · rw [fit?_of_lt hfits]
        exact ih _ hfits
      · rw [fit?, if_neg hfits]
        exact ⟨fun h => (by cases h), fun h => absurd h (by omega)⟩
  have hall := hsum s.timers.entries 0 (by decide)
  rwa [Nat.zero_add] at hall

end Store

namespace Registry

/-- A registry that keeps summaries takes every measurement that there is room for. -/
theorem verdict_memory {s : Store} {timer : Timer} {elapsed : Duration}
    (h : (s.summary timer.key).total.nanoseconds + elapsed.nanoseconds ≤ maxNanoseconds)
    (a : Attribution) :
    (memory s).record timer elapsed a = (memory (s.record timer elapsed), [], .taken) := by
  simp [record, recordInto, Store.overflows, (Summary.overflows_eq_false h).1]

theorem verdicts_memory {s : Store} {calls : List Call} (h : s.HasRoom calls) :
    ∀ verdict ∈ (memory s).verdicts calls, verdict = .taken := by
  induction calls generalizing s with
  | nil => exact List.forall_mem_nil _
  | cons call calls ih =>
    rw [verdicts, ask_memory]
    refine List.forall_mem_cons.mpr ⟨?_, ih h.hear⟩
    cases call with
    | started a => rfl
    | recorded timer elapsed a =>
      rw [ask, verdict_memory h.fits]

end Registry

/-- Two timers have one key if their names are the same and their tags, in whatever order those were
written. -/
theorem Timer.key_eq_iff {t u : Timer} :
    t.key = u.key ↔ t.name = u.name ∧ ∀ label, t.tags.get? label = u.tags.get? label := by
  rw [key, key, TimerKey.mk.injEq]
  exact and_congr_right fun _ => ⟨fun h label => by rw [h], SortedMap.ext_get?⟩

/-- **A registry adds up what it is handed**, in whatever order it comes. Let there be room for the
sum under each key. Then every measurement is taken. Exactly the keys under which something was
handed over have a summary, and it has their number, their sum and the longest of them. Under a name
each of its tag sets is found once. All measurements are counted, and the same calls in another
order leave the same registry.

Numbers of 64 bits are wide enough just as long as fewer than 2^64 samples are started, and fewer
than 2^64 measurements handed over under each key. The number of all measurements is told if it has
64 bits.

In any state that it may reach, with or without room, the longest measurement of a key is not longer
than their sum, and the sum not longer than that many times the longest. -/
theorem Registry.memory_adds_up {calls : List Call}
    (hroom : ∀ key,
      ((durationsUnder key calls).map Duration.nanoseconds).sum ≤ maxNanoseconds) :
    ∃ store, (memory {}).after calls = memory store ∧
      (∀ verdict ∈ (memory {}).verdicts calls, verdict = .taken) ∧
      (∀ key, (store.timers.get? key).isSome ↔ durationsUnder key calls ≠ []) ∧
      (∀ key summary, store.timers.get? key = some summary →
        summary.count = (durationsUnder key calls).length ∧
        summary.total.nanoseconds = ((durationsUnder key calls).map Duration.nanoseconds).sum ∧
        ((durationsUnder key calls).map Duration.nanoseconds).max? =
          some summary.max.nanoseconds) ∧
      (∀ name, ((store.find name).map Prod.fst).Nodup ∧
        ∀ tags summary, (tags, summary) ∈ store.find name ↔
          store.timers.get? ⟨name, tags⟩ = some summary) ∧
      store.recorded = calls.countP Call.isMeasurement ∧
      (calls.foldlM Store.hear? {} = some store ↔
        (calls.countP fun call => !call.isMeasurement) < 2 ^ 64 ∧
          ∀ key, (durationsUnder key calls).length < 2 ^ 64) ∧
      (store.recorded? = some store.recorded ↔ calls.countP Call.isMeasurement < 2 ^ 64) ∧
      (∀ calls', calls.Perm calls' → (memory {}).after calls' = memory store) ∧
      (∀ t u : Timer, t.key = u.key ↔
        t.name = u.name ∧ ∀ label, t.tags.get? label = u.tags.get? label) ∧
      ∀ others last, (memory {}).after others = memory last →
        ∀ key summary, last.timers.get? key = some summary →
          summary.max.nanoseconds ≤ summary.total.nanoseconds ∧
            summary.total.nanoseconds ≤ summary.count * summary.max.nanoseconds := by
  have hall : ({} : Store).HasRoom calls := fun key => (Nat.zero_add _).symm ▸ hroom key
  have hrecorded := Store.recorded_after_empty calls
  refine ⟨({} : Store).after calls, after_memory _ _, verdicts_memory hall,
    fun key => Store.isSome_get?_after, fun key summary hsummary => ?_,
    fun name => ⟨Store.nodup_find _ name, fun _ _ => Store.mem_find_iff⟩, hrecorded,
    (Store.foldlM_hear?_iff Store.narrow_empty hall).trans Store.narrow_after_iff,
    hrecorded ▸ Store.recorded?_eq_iff _, fun calls' hperm => ?_,
    fun _ _ => Timer.key_eq_iff, fun others last hlast key summary hsummary => ?_⟩
  · have hsums := Store.get?_after_iff.mp hsummary
    rw [hall.fitting] at hsums
    exact ⟨hsums.count, hsums.total, hsums.max⟩
  · rw [after_memory, hall.after_perm hperm]
  · rw [after_memory] at hlast
    cases hlast
    exact (Store.get?_after_iff.mp hsummary).bounds (fitting_sublist _ _)

/-! ## Three measurements in two orders -/

namespace Exports

def mailed : Timer := ((Timer.named "jobs").withTag "size" "small").withTag "queue" "mail"

/-- The timer `mailed`, of which the tags were written the other way round. -/
def mailedToo : Timer := ((Timer.named "jobs").withTag "queue" "mail").withTag "size" "small"

/-- The calls for two measurements of this timer, and one of the same name without tags between
them. -/
def mixed : List Call := [
  .started (.ofRequest {}),
  .recorded mailed { nanoseconds := 3 } (.ofRequest {}),
  .recorded (.named "jobs") { nanoseconds := 4 } (.ofRequest {}),
  .recorded mailedToo { nanoseconds := 5 } (.ofRequest {})]

/-- The two timers have one key, under which there are two measurements. The calls leave the same
registry the other way round, and with numbers of 64 bits. -/
theorem mixed_added_up :
    (∀ key, ((durationsUnder key mixed).map Duration.nanoseconds).sum ≤ maxNanoseconds) ∧
    ∃ store, (Registry.memory {}).after mixed = .memory store ∧
      (Registry.memory {}).after mixed.reverse = .memory store ∧ store.recorded = 3 ∧
      mixed.foldlM Store.hear? {} = some store ∧ store.recorded? = some 3 ∧
      (∃ summary, (mailed.tags, summary) ∈ store.find "jobs" ∧ summary.count = 2 ∧
        summary.total.nanoseconds = 8 ∧ summary.max.nanoseconds = 5) ∧
      store.timers.get? ⟨"idle", .empty⟩ = none := by
  have hroom : ∀ key,
      ((durationsUnder key mixed).map Duration.nanoseconds).sum ≤ maxNanoseconds :=
    fun key => Nat.le_trans (sum_durationsUnder_le key mixed) (by decide)
  obtain ⟨store, hafter, -, hkeys, hsums, hfind, hrecorded, hheard, htold, horder, -⟩ :=
    Registry.memory_adds_up hroom
  have hfew : ∀ key, (durationsUnder key mixed).length < 2 ^ 64 := fun key =>
    Nat.lt_of_le_of_lt (List.length_filterMap_le _ _) (by decide)
  have hcounted : store.recorded = 3 := hrecorded
  refine ⟨hroom, store, hafter, horder _ (List.reverse_perm mixed).symm, hcounted,
    hheard.mpr ⟨by decide, hfew⟩, hcounted ▸ htold.mpr (by decide), ?_, ?_⟩
  · have hunder : durationsUnder ⟨"jobs", mailed.tags⟩ mixed =
        [{ nanoseconds := 3 }, { nanoseconds := 5 }] := by decide
    obtain ⟨summary, hsummary⟩ := Option.isSome_iff_exists.mp
      ((hkeys ⟨"jobs", mailed.tags⟩).mpr (by rw [hunder]; exact List.cons_ne_nil _ _))
    have hall := hsums _ _ hsummary
    rw [hunder] at hall
    obtain ⟨hcount, htotal, hmax⟩ := hall
    exact ⟨summary, ((hfind "jobs").2 _ _).mpr hsummary, hcount, htotal,
      (Option.some.inj hmax).symm⟩
  · have hidle : durationsUnder ⟨"idle", .empty⟩ mixed = [] := by decide
    rw [← Option.not_isSome_iff_eq_none, hkeys]
    exact fun hne => hne hidle

end Exports

end TimedHttp
