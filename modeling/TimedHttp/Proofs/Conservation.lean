import Mathlib.Algebra.BigOperators.Group.List.Basic
import TimedHttp.Proofs.Aggregates
import TimedHttp.Proofs.Dealings

/-!
# Measurements are conserved

Many requests are measured into one store at the same time. Each asks what it would ask alone, and
the store answers the calls in the order in which they come. As long as no sum of measurements
leaves the range of durations, the store counts exactly what was asked of it, so in the end it
depends on the requests and not on the order.

While one request is under way, others may change the state of the application and the clock goes
on. So nothing is supposed of what a request meets: each is taken with an application and a service
of its own, and only the timing layer is the same for all.

## Main definitions

* `Store.Serves` — one store answers several requests in turns
* `Handled`, `Handled.keys` — a request that was answered, and what it is measured under

## Main statements

* `Store.Serves.took` — the store counts what was asked
* `Handled.served` — a request alone is served by the registry of its service
* `Handled.dealings_of_taken` — what a request asks, if it is always taken
* `measurements_conserved` — what a collection of requests adds to the store
-/

namespace TimedHttp

/-! ## What dealings add to a store -/

namespace Dealing

def isStart : Dealing → Bool
  | asked (.started _) _ => true
  | _ => false

/-- A measurement was handed over, and it is collected under a key with the property. -/
def isMeasurement (p : TimerKey → Bool) : Dealing → Bool
  | asked (.recorded timer _ _) _ => p timer.key
  | _ => false

/-- The time that was handed over under a key. -/
def nanosecondsUnder (key : TimerKey) : Dealing → Nat
  | asked (.recorded timer elapsed _) _ => if timer.key = key then elapsed.nanoseconds else 0
  | _ => 0

def call? : Dealing → Option Call
  | asked call _ => some call
  | resolved _ => none

def tags? : Dealing → Option Tags
  | resolved tags => tags.toOption
  | _ => none

/-- What was asked was done, if anything was. -/
def IsTaken (m : Dealing) : Prop := ∀ call verdict, m = asked call verdict → verdict = .taken

theorem sum_nanosecondsUnder (key : TimerKey) (dealings : List Dealing) :
    (dealings.map (nanosecondsUnder key)).sum =
      ((durationsUnder key (dealings.filterMap call?)).map Duration.nanoseconds).sum := by
  induction dealings with
  | nil => rfl
  | cons dealing dealings ih =>
    rw [List.map_cons, List.sum_cons, ih, List.filterMap_cons]
    match dealing with
    | resolved tags => exact Nat.zero_add _
    | asked (.started a) verdict => exact Nat.zero_add _
    | asked (.recorded timer elapsed a) verdict =>
      simp only [call?, durationsUnder, List.filterMap_cons, Call.durationUnder?, nanosecondsUnder]
      by_cases hkey : timer.key = key
      · rw [if_pos hkey, if_pos hkey, List.map_cons, List.sum_cons]
      · rw [if_neg hkey, if_neg hkey, Nat.zero_add]

end Dealing

namespace Store

/-- **Took**: between two states of a store, it counted what the dealings tell, and nothing else. -/
structure Took (store last : Store) (dealings : List Dealing) : Prop where
  started : last.started = store.started + dealings.countP Dealing.isStart
  recorded : last.recorded = store.recorded + dealings.countP (Dealing.isMeasurement fun _ => true)
  count : ∀ key, (last.summary key).count =
    (store.summary key).count + dealings.countP (Dealing.isMeasurement (· = key))
  total : ∀ key, (last.summary key).total.nanoseconds =
    (store.summary key).total.nanoseconds + (dealings.map (Dealing.nanosecondsUnder key)).sum
  others : ∀ key, dealings.countP (Dealing.isMeasurement (· = key)) = 0 →
    last.timers.get? key = store.timers.get? key

namespace Took

variable {store between last : Store} {dealings more : List Dealing}

theorem refl (store : Store) : store.Took store [] :=
  ⟨rfl, rfl, fun _ => rfl, fun _ => rfl, fun _ _ => rfl⟩

theorem trans (h : store.Took between dealings) (h' : between.Took last more) :
    store.Took last (dealings ++ more) := by
  refine ⟨?_, ?_, fun key => ?_, fun key => ?_, fun key hkey => ?_⟩
  · rw [h'.started, h.started, List.countP_append, Nat.add_assoc]
  · rw [h'.recorded, h.recorded, List.countP_append, Nat.add_assoc]
  · rw [h'.count, h.count, List.countP_append, Nat.add_assoc]
  · rw [h'.total, h.total, List.map_append, List.sum_append, Nat.add_assoc]
  · rw [List.countP_append] at hkey
    exact (h'.others key (by omega)).trans (h.others key (by omega))

/-- It does not matter in which order the dealings are told. -/
theorem perm (h : store.Took last dealings) (hperm : dealings.Perm more) :
    store.Took last more := by
  refine ⟨?_, ?_, fun key => ?_, fun key => ?_, fun key hkey => ?_⟩
  · rw [h.started, hperm.countP_eq]
  · rw [h.recorded, hperm.countP_eq]
  · rw [h.count, hperm.countP_eq]
  · rw [h.total, (hperm.map _).sum_eq]
  · exact h.others key (hperm.countP_eq _ ▸ hkey)

end Took

/-! ## One store for several requests -/

/-- **A store serves** several requests in turns: each list has what one request still asks, and any
of them may come next. -/
inductive Serves : Store → List (List Dealing) → Store → Prop
  | done {store : Store} {requests : List (List Dealing)} :
      (∀ dealings ∈ requests, dealings = []) → Serves store requests store
  | turn {store between last : Store} (before after : List (List Dealing)) {dealing : Dealing}
      {dealings : List Dealing} :
      store.Answers dealing between → Serves between (before ++ dealings :: after) last →
      Serves store (before ++ (dealing :: dealings) :: after) last

/-- The dealing that comes next, and all others. -/
theorem perm_flatten_turn (before after : List (List Dealing)) (dealing : Dealing)
    (dealings : List Dealing) :
    (dealing :: (before ++ dealings :: after).flatten).Perm
      (before ++ (dealing :: dealings) :: after).flatten := by
  simp only [List.flatten_append, List.flatten_cons, List.cons_append]
  exact List.perm_middle.symm

/-- A dealing that hands over no measurement leaves the timers. -/
theorem Took.of_timers_eq {store last : Store} {dealing : Dealing}
    (htimers : last.timers = store.timers)
    (hstarted : last.started = store.started + [dealing].countP Dealing.isStart)
    (hnone : ∀ p, dealing.isMeasurement p = false)
    (hzero : ∀ key, dealing.nanosecondsUnder key = 0) :
    store.Took last [dealing] := by
  have hsummary : ∀ key, last.summary key = store.summary key := fun key => by
    unfold summary
    rw [htimers]
  refine ⟨hstarted, ?_, fun key => ?_, fun key => ?_, fun key _ => ?_⟩
  · simp [Store.recorded, htimers, hnone]
  · simp [hsummary, hnone]
  · simp [hsummary, hzero]
  · rw [htimers]

/-- **An answer within range**: the store takes what it was asked. -/
theorem Answers.took {store last : Store} {dealing : Dealing} (h : store.Answers dealing last)
    (hrange : ∀ key, (store.summary key).total.nanoseconds + dealing.nanosecondsUnder key ≤
      maxNanoseconds) :
    dealing.IsTaken ∧ store.Took last [dealing] := by
  cases h with
  | start a =>
    refine ⟨fun call verdict he => ?_, .of_timers_eq rfl rfl (fun _ => rfl) fun _ => rfl⟩
    cases he
    rfl
  | tags tags =>
    refine ⟨fun call verdict he => ?_, .of_timers_eq rfl rfl (fun _ => rfl) fun _ => rfl⟩
    cases he
  | record timer elapsed a =>
    have hkey := hrange timer.key
    simp only [Dealing.nanosecondsUnder, if_true] at hkey
    obtain ⟨hfits, htotal⟩ := Summary.overflows_eq_false hkey
    have hverdict : (Registry.recordInto store timer elapsed).2 = .taken := by
      simp [Registry.recordInto, overflows, hfits]
    have hstore : (Registry.recordInto store timer elapsed).1 = store.record timer elapsed := rfl
    rw [hverdict, hstore]
    refine ⟨fun call verdict he => ?_, rfl, recorded_record _ _ _, fun key => ?_, fun key => ?_,
      fun key hnone => ?_⟩
    · cases he
      rfl
    · rw [summary_record]
      by_cases hk : key = timer.key
      · subst hk
        simp [Dealing.isMeasurement, Summary.count_record]
      · simp [Dealing.isMeasurement, hk, Ne.symm hk]
    · rw [summary_record]
      by_cases hk : key = timer.key
      · subst hk
        simp [Dealing.nanosecondsUnder, htotal]
      · simp [Dealing.nanosecondsUnder, hk, Ne.symm hk]
    · rw [get?_record, if_neg]
      rintro rfl
      simp [Dealing.isMeasurement] at hnone

theorem Answers.heard {store last : Store} {dealing : Dealing} (h : store.Answers dealing last) :
    last = store.after dealing.call?.toList := by
  cases h with
  | start | record | tags => rfl

theorem AnswersAll.serves {store last : Store} {dealings : List Dealing}
    (h : store.AnswersAll dealings last) : store.Serves [dealings] last := by
  induction h with
  | nil store => exact .done fun dealings hd => List.mem_singleton.mp hd
  | cons hanswer _ ih => exact .turn [] [] hanswer ih

/-- **The store counts what was asked**, by whichever request and in whatever order, if no sum of
measurements leaves the range of durations. Then all of it is taken. -/
theorem Serves.took {store last : Store} {requests : List (List Dealing)}
    (h : store.Serves requests last)
    (hrange : ∀ key, (store.summary key).total.nanoseconds +
      (requests.flatten.map (Dealing.nanosecondsUnder key)).sum ≤ maxNanoseconds) :
    (∀ dealing ∈ requests.flatten, dealing.IsTaken) ∧ store.Took last requests.flatten := by
  induction h with
  | @done store requests hdone =>
    have hnil : requests.flatten = [] := List.flatten_eq_nil_iff.mpr hdone
    rw [hnil]
    exact ⟨List.forall_mem_nil _, .refl store⟩
  | @turn store between last before after dealing dealings hanswer _ ih =>
    have hperm := perm_flatten_turn before after dealing dealings
    have hsum : ∀ key, (store.summary key).total.nanoseconds + (dealing.nanosecondsUnder key +
        ((before ++ dealings :: after).flatten.map (Dealing.nanosecondsUnder key)).sum) ≤
          maxNanoseconds := by
      intro key
      have hkey := hrange key
      rwa [← (hperm.map _).sum_eq, List.map_cons, List.sum_cons] at hkey
    obtain ⟨htaken, htook⟩ := hanswer.took fun key => by have hkey := hsum key; omega
    obtain ⟨hothers, hrest⟩ := ih fun key => by
      have hkey := hsum key
      rw [htook.total key, List.map_singleton, List.sum_singleton]
      omega
    refine ⟨fun m hm => ?_, (htook.trans hrest).perm hperm⟩
    rcases List.mem_cons.mp (hperm.mem_iff.mpr hm) with rfl | hm
    · exact htaken
    · exact hothers m hm

/-- **The calls as they come**: a store that serves several requests hears their calls, one after
the other, in some order. -/
theorem Serves.heard {store last : Store} {requests : List (List Dealing)}
    (h : store.Serves requests last) :
    ∃ calls : List Call,
      calls.Perm (requests.flatten.filterMap Dealing.call?) ∧ last = store.after calls := by
  induction h with
  | @done store requests hdone =>
    rw [List.flatten_eq_nil_iff.mpr hdone]
    exact ⟨[], .refl _, rfl⟩
  | @turn store between last before after dealing dealings hanswer _ ih =>
    obtain ⟨calls, hcalls, hlast⟩ := ih
    have hbetween := hanswer.heard
    have hfirst : (dealing.call?.toList ++ calls).Perm
        ((dealing :: (before ++ dealings :: after).flatten).filterMap Dealing.call?) := by
      rw [List.filterMap_cons]
      cases dealing.call? with
      | none => exact hcalls
      | some call => exact hcalls.cons call
    refine ⟨dealing.call?.toList ++ calls,
      hfirst.trans ((perm_flatten_turn before after dealing dealings).filterMap _), ?_⟩
    rw [hlast, hbetween, Store.after, Store.after, Store.after, List.foldl_append]

/-- **In 64 bits** a store serves requests as well, just as long as its numbers have as many bits in
the end. -/
theorem Serves.heard_narrow {store last : Store} {requests : List (List Dealing)}
    (h : store.Serves requests last) (hstore : store.Narrow)
    (hrange : ∀ key, (store.summary key).total.nanoseconds +
      (requests.flatten.map (Dealing.nanosecondsUnder key)).sum ≤ maxNanoseconds) :
    ∃ calls : List Call, calls.Perm (requests.flatten.filterMap Dealing.call?) ∧
      last = store.after calls ∧ (calls.foldlM Store.hear? store = some last ↔ last.Narrow) := by
  obtain ⟨calls, hcalls, rfl⟩ := h.heard
  refine ⟨calls, hcalls, rfl, foldlM_hear?_iff hstore fun key => ?_⟩
  rw [((durationsUnder_perm hcalls key).map _).sum_eq, ← Dealing.sum_nanosecondsUnder]
  exact hrange key

end Store

/-! ## What a request is measured under -/

/-- The key of a declaration: its own name, or else that of the metric, with its own tags over those
of the exchange. -/
def Declaration.key (d : Declaration) (metric : String) (tags : Tags) : TimerKey :=
  ⟨d.name.getD metric, tags.extend d.tags⟩

theorem Declaration.key_timer (d : Declaration) (metric : String) (tags : Tags) :
    (d.timer metric tags).key = d.key metric tags := by
  simp [timer, Timer.key, Timer.withDescription, Timer.withTags, Timer.named, key,
    SortedMap.empty_extend]

/-- **What an exchange is measured under**, with a key for each entry. Without declarations it is
the metric with the tags of the exchange, if routes are timed by default; otherwise each declaration
gives a key, unless one of them is disabled. -/
def TimingLayer.keysFor (layer : TimingLayer σ) (declarations : List Declaration) :
    Option Tags → List TimerKey
  | none => []
  | some tags =>
    if declarations = [] then
      if layer.byDefault then [⟨layer.metric, tags⟩] else []
    else if declarations.all Declaration.enabled then
      declarations.map fun d => d.key layer.metric tags
    else []

theorem TimingLayer.keys_timersFor (layer : TimingLayer σ) (route : Option (Route σ))
    (tags : Except String Tags) :
    (layer.timersFor route tags).map Timer.key =
      layer.keysFor ((route.map Route.declarations).getD []) tags.toOption := by
  cases tags with
  | error message => rfl
  | ok tags =>
    simp only [timersFor, timersOf, keysFor, Except.toOption]
    generalize (route.map Route.declarations).getD [] = declarations
    have hdisabled : (declarations.any fun d => !d.enabled) =
        !declarations.all Declaration.enabled := by
      rw [List.all_eq_not_any_not, Bool.not_not]
    by_cases hnone : declarations = []
    · rw [if_pos hnone, if_pos hnone]
      cases layer.byDefault with
      | false => rfl
      | true => simp [Timer.key, Timer.withTags, Timer.named, SortedMap.empty_extend]
    · rw [if_neg hnone, if_neg hnone, hdisabled]
      cases declarations.all Declaration.enabled with
      | false => rfl
      | true => simp [Declaration.key_timer]

/-! ## A request that was answered -/

namespace HandedOver

variable {elapsed : Duration} {a : Attribution} {timers : List Timer} {dealings : List Dealing}

/-- If nothing that was handed over made the registry crash, all timers were handed over. -/
theorem eq_of_taken (h : HandedOver elapsed a timers dealings)
    (htaken : ∀ dealing ∈ dealings, dealing.IsTaken) :
    dealings = timers.map fun timer => .asked (.recorded timer elapsed a) .taken := by
  induction h with
  | nil => rfl
  | @crash timer timers message =>
    have hverdict : Verdict.crashed message = .taken :=
      htaken _ List.mem_cons_self _ _ rfl
    cases hverdict
  | @next timer timers verdict dealings _ _ ih =>
    have hverdict : verdict = .taken := htaken _ List.mem_cons_self _ _ rfl
    rw [hverdict, ih fun dealing hd => htaken dealing (List.mem_cons_of_mem _ hd), List.map_cons]

theorem findSome?_tags (h : HandedOver elapsed a timers dealings) :
    dealings.findSome? Dealing.tags? = none := by
  induction h with
  | nil | crash => rfl
  | next _ _ ih => exact ih

end HandedOver

/-- **A request that was answered** by an application behind the timing layer, of whose layers no
other is one. -/
structure Handled (layer : TimingLayer σ) where
  app : App σ
  layers : List (Layer σ)
  request : Request
  before : Service σ
  after : Service σ
  response : Response
  outermost : app.layers = .timing layer :: layers
  alone : ∀ l ∈ layers, l.isTiming = false
  handled : app.handle request before = (after, .ok response)

namespace Handled

variable {layer : TimingLayer σ}

/-- All dealings of the request with its registry, as the journal tells them. -/
def dealings (r : Handled layer) : List Dealing :=
  (r.after.journal.drop r.before.journal.length).filterMap (Entry.dealing? layer.registry)

def declarations (r : Handled layer) : List Declaration :=
  ((r.app.begin r.request).route.map Route.declarations).getD []

/-- What the request is measured under, by the tags that were resolved; nothing, if the provider
crashed. -/
def keys (r : Handled layer) : List TimerKey :=
  layer.keysFor r.declarations (r.dealings.findSome? Dealing.tags?)

theorem dealings_eq_of_gains (r : Handled layer) {dealings : List Dealing}
    (h : r.before.Gains (Entry.dealing? layer.registry) r.after dealings) :
    r.dealings = dealings := by
  obtain ⟨entries, hjournal, rfl⟩ := h
  rw [Handled.dealings, hjournal, List.drop_left]

/-- **A request that has a store to itself** is served by it. -/
theorem served (r : Handled layer) {store : Store}
    (h : r.before.registries[layer.registry]? = some (.memory store)) :
    ∃ last, r.after.registries[layer.registry]? = some (.memory last) ∧
      store.Serves [r.dealings] last := by
  obtain ⟨tags, elapsed, a, dealings, -, hdeals⟩ :=
    App.deals_of_handled r.outermost r.alone r.handled
  obtain ⟨last, hlast, hanswered⟩ := hdeals.answered store h
  rw [r.dealings_eq_of_gains hdeals.told]
  exact ⟨last, hlast, hanswered.serves⟩

/-- **What a request asks**, as a whole: one start, and then a measurement for each key, all of the
same length, as long as they are taken. -/
theorem exists_handedOver (r : Handled layer) :
    ∃ (tags : Except String Tags) (elapsed : Duration) (a : Attribution) (timers : List Timer)
      (dealings : List Dealing), HandedOver elapsed a timers dealings ∧
      r.keys = layer.keysFor r.declarations tags.toOption ∧ timers.map Timer.key = r.keys ∧
      r.dealings =
        .asked (.started (.ofRequest r.request)) .taken :: .resolved tags :: dealings := by
  obtain ⟨tags, elapsed, a, dealings, hdealings, hdeals⟩ :=
    App.deals_of_handled r.outermost r.alone r.handled
  have hall : r.dealings =
      .asked (.started (.ofRequest r.request)) .taken :: .resolved tags :: dealings :=
    r.dealings_eq_of_gains hdeals.told
  have htags : r.dealings.findSome? Dealing.tags? = tags.toOption := by
    rw [hall]
    cases tags with
    | error message => exact hdealings.findSome?_tags
    | ok tags => rfl
  have hkeys : r.keys = layer.keysFor r.declarations tags.toOption := by rw [keys, htags]
  exact ⟨tags, elapsed, a, _, dealings, hdealings, hkeys,
    (layer.keys_timersFor _ tags).trans hkeys.symm, hall⟩

/-- **What a request asks if all of it is taken.** -/
theorem dealings_of_taken (r : Handled layer) (htaken : ∀ dealing ∈ r.dealings, dealing.IsTaken) :
    ∃ (tags : Except String Tags) (elapsed : Duration) (a : Attribution) (timers : List Timer),
      r.keys = layer.keysFor r.declarations tags.toOption ∧ timers.map Timer.key = r.keys ∧
      r.dealings = .asked (.started (.ofRequest r.request)) .taken :: .resolved tags ::
        timers.map fun timer => .asked (.recorded timer elapsed a) .taken := by
  obtain ⟨tags, elapsed, a, timers, dealings, hdealings, hresolved, hkeys, hall⟩ :=
    r.exists_handedOver
  refine ⟨tags, elapsed, a, timers, hresolved, hkeys, ?_⟩
  rw [← hdealings.eq_of_taken fun dealing hd => htaken dealing ?_]
  · exact hall
  · rw [hall]
    exact List.mem_cons_of_mem _ (List.mem_cons_of_mem _ hd)

/-- A request that is always taken adds one start, and a measurement for each key. -/
theorem counts_of_taken (r : Handled layer) (htaken : ∀ dealing ∈ r.dealings, dealing.IsTaken) :
    r.dealings.countP Dealing.isStart = 1 ∧
      ∀ p, r.dealings.countP (Dealing.isMeasurement p) = r.keys.countP p := by
  obtain ⟨tags, elapsed, a, timers, -, hkeys, hall⟩ := r.dealings_of_taken htaken
  rw [hall, ← hkeys]
  refine ⟨?_, fun p => ?_⟩
  · have hnone : (timers.map fun timer =>
        Dealing.asked (.recorded timer elapsed a) .taken).countP Dealing.isStart = 0 := by
      simp [List.countP_map, Function.comp_def, Dealing.isStart]
    rw [List.countP_cons, List.countP_cons, hnone]
    rfl
  · rw [List.countP_cons, List.countP_cons, List.countP_map, List.countP_map]
    rfl

end Handled

/-- **Measurements are conserved.** Requests behind one timing layer are answered while one store
serves them in turns, in whatever order their calls come, and no sum of measurements leaves the
range of durations. Then the store counts one start for each request; under each key as many
measurements as the requests have entries for it, and all of them in its sum; and what no request
has an entry for stays as it was. Each request was attributed and measured once: its calls are one
start and, by the tags that were resolved, a measurement for each of its entries, all with the same
elapsed time.

A store with numbers of 64 bits hears the calls in their order as well, just as long as these
numbers have as many bits in the end; so has the number of all measurements if it can be told. -/
theorem measurements_conserved {layer : TimingLayer σ} {runs : List (Handled layer)}
    {store last : Store} (hserves : store.Serves (runs.map Handled.dealings) last)
    (hrange : ∀ key, (store.summary key).total.nanoseconds +
      ((runs.map Handled.dealings).flatten.map (Dealing.nanosecondsUnder key)).sum ≤
        maxNanoseconds) :
    last.started = store.started + runs.length ∧
    (∀ key, (last.summary key).count =
      (store.summary key).count + (runs.map fun r => r.keys.count key).sum) ∧
    (∀ key, (last.summary key).total.nanoseconds = (store.summary key).total.nanoseconds +
      ((runs.map Handled.dealings).flatten.map (Dealing.nanosecondsUnder key)).sum) ∧
    (∀ key, (∀ r ∈ runs, key ∉ r.keys) → last.timers.get? key = store.timers.get? key) ∧
    last.recorded = store.recorded + (runs.map fun r => r.keys.length).sum ∧
    (∀ r ∈ runs, ∃ (tags : Except String Tags) (elapsed : Duration) (a : Attribution)
      (timers : List Timer),
      r.keys = layer.keysFor r.declarations tags.toOption ∧ timers.map Timer.key = r.keys ∧
      r.dealings = .asked (.started (.ofRequest r.request)) .taken :: .resolved tags ::
        timers.map fun timer => .asked (.recorded timer elapsed a) .taken) ∧
    (store.Narrow → ∃ calls : List Call,
      calls.Perm ((runs.map Handled.dealings).flatten.filterMap Dealing.call?) ∧
        last = store.after calls ∧
        (calls.foldlM Store.hear? store = some last ↔ last.Narrow)) ∧
    (last.recorded? = some last.recorded ↔ last.recorded < 2 ^ 64) ∧
    ∀ (d : Declaration) (tags : Tags) (label : String),
      (d.key layer.metric tags).tags.get? label = (d.tags.get? label).or (tags.get? label) := by
  -- nothing overflows, so each request got as far as it would on its own
  obtain ⟨htaken, htook⟩ := hserves.took hrange
  have hrun : ∀ r ∈ runs, ∀ dealing ∈ r.dealings, dealing.IsTaken := fun r hr dealing hd =>
    htaken dealing (List.mem_flatten.mpr ⟨r.dealings, List.mem_map_of_mem hr, hd⟩)
  have hmeasured : ∀ p, (runs.map Handled.dealings).flatten.countP (Dealing.isMeasurement p) =
      (runs.map fun r => r.keys.countP p).sum := by
    intro p
    rw [List.countP_flatten, List.map_map]
    exact congrArg List.sum (List.map_congr_left fun r hr => (r.counts_of_taken (hrun r hr)).2 p)
  have hstarts : (runs.map Handled.dealings).flatten.countP Dealing.isStart = runs.length := by
    rw [List.countP_flatten, List.map_map]
    have hone : runs.map (List.countP Dealing.isStart ∘ Handled.dealings) = runs.map fun _ => 1 :=
      List.map_congr_left fun r hr => (r.counts_of_taken (hrun r hr)).1
    rw [hone]
    simp
  refine ⟨?_, fun key => ?_, htook.total, fun key hkey => ?_, ?_,
    fun r hr => r.dealings_of_taken (hrun r hr), fun hstore => hserves.heard_narrow hstore hrange,
    last.recorded?_eq_iff, fun d tags label => ?_⟩
  · rw [htook.started, hstarts]
  · rw [htook.count, hmeasured]
    rfl
  · refine htook.others key ?_
    have hzero : runs.map (fun r => r.keys.countP (· = key)) = runs.map fun _ => 0 :=
      List.map_congr_left fun r hr => List.countP_eq_zero.mpr fun k hk he =>
        hkey r hr (of_decide_eq_true he ▸ hk)
    rw [hmeasured, hzero]
    simp
  · rw [htook.recorded, hmeasured]
    simp
  · exact SortedMap.get?_extend tags d.tags label

/-! ## Two requests in turns -/

/-- On a clock that stands still no measurement leaves the range. -/
theorem Store.Answers.zero (store : Store) (timer : Timer) (a : Attribution) :
    store.Answers (.asked (.recorded timer .zero a) .taken) (store.record timer .zero) := by
  have hanswer : store.Answers _ _ := .record timer .zero a
  have hrange : (store.summary timer.key).total.nanoseconds + Duration.zero.nanoseconds ≤
      maxNanoseconds := (store.summary timer.key).total.le_max
  have hfits : store.overflows timer .zero = false := (Summary.overflows_eq_false hrange).1
  simpa [Registry.recordInto, hfits] using hanswer

namespace Exports

/-- A timing layer that gives all exchanges the same tag. -/
def small : TimingLayer Unit :=
  { registry := 0, tags := fun _ _ _ => .ok (.ofList [("size", "small")]) }

/-- Three declarations, two of them alike. -/
def declarations : List Declaration :=
  [{}, { name := some "jobs", tags := .ofList [("size", "large")] }, {}]

/-- The route with these declarations; its deferred work answers. -/
def declared : App Unit :=
  { routes := (routes (.answer (.bare .created))).map fun entry =>
      { entry with route := declarations.foldl Route.timed entry.route }
    layers := [.timing small] }

/-- A request to the route, on a clock that stands still. -/
def declaredRequest : Handled small where
  app := declared
  layers := []
  request := request
  before := { state := () }
  after := (declared.handle request { state := () }).1
  response := .bare .created
  outermost := rfl
  alone := List.forall_mem_nil _
  handled := rfl

/-- The key of the two declarations that are alike. -/
def smallKey : TimerKey := ⟨"http.server.requests", .ofList [("size", "small")]⟩

def largeKey : TimerKey := ⟨"jobs", .ofList [("size", "large")]⟩

theorem keys_declaredRequest : declaredRequest.keys = [smallKey, largeKey, smallKey] := by
  decide

/-- Two such requests, started one after the other; the second one is measured while the first waits
for its deferred work. Numbers of 64 bits are wide enough for them. -/
theorem interleaved_conserved :
    ∃ last, Store.Serves {} [declaredRequest.dealings, declaredRequest.dealings] last ∧
      last.started = 2 ∧ (last.summary smallKey).count = 4 ∧ (last.summary largeKey).count = 2 ∧
      last.recorded = 6 ∧ last.recorded? = some 6 ∧
      ∃ calls : List Call, calls.foldlM Store.hear? {} = some last := by
  obtain ⟨tags, a, first, second, third, hdealings⟩ :
      ∃ (tags : Except String Tags) (a : Attribution) (first second third : Timer),
        declaredRequest.dealings = [.asked (.started (.ofRequest request)) .taken, .resolved tags,
          .asked (.recorded first .zero a) .taken, .asked (.recorded second .zero a) .taken,
          .asked (.recorded third .zero a) .taken] := ⟨_, _, _, _, _, rfl⟩
  -- the first request waits, and is alone once the second has been measured
  have hwaiting : ∀ store : Store, ∃ last,
      store.Serves [declaredRequest.dealings.tail, []] last := by
    intro store
    rw [hdealings]
    exact ⟨_, .turn [] [_] (.tags _) (.turn [] [_] (.zero _ _ _) (.turn [] [_] (.zero _ _ _)
      (.turn [] [_] (.zero _ _ _) (.done (by simp)))))⟩
  have hserves : ∃ last, Store.Serves {}
      ([declaredRequest, declaredRequest].map Handled.dealings) last := by
    simp only [hdealings, List.tail_cons, List.map_cons, List.map_nil] at hwaiting ⊢
    obtain ⟨last, hlast⟩ := hwaiting _
    exact ⟨last, .turn [] [_] (.start _) (.turn [_] [] (.start _) (.turn [_] [] (.tags _)
      (.turn [_] [] (.zero _ _ _) (.turn [_] [] (.zero _ _ _) (.turn [_] [] (.zero _ _ _)
        hlast)))))⟩
  obtain ⟨last, hserves⟩ := hserves
  obtain ⟨hstarted, hcount, -, -, hrecorded, -, hheard, htold, -⟩ :=
    measurements_conserved hserves fun key => by
      simp [hdealings, Dealing.nanosecondsUnder, Duration.zero, Store.summary, SortedMap.get?_empty]
  simp only [List.map_cons, List.map_nil, keys_declaredRequest] at hcount hrecorded
  have hcounted : last.recorded = 6 := hrecorded
  have hnarrow : last.Narrow := by
    refine ⟨by rw [hstarted]; decide, fun key => ?_⟩
    have hkeys : [smallKey, largeKey, smallKey].count key ≤ 3 := List.count_le_length
    have hzero : (({} : Store).summary key).count = 0 := rfl
    rw [hcount, hzero, List.sum_cons, List.sum_cons, List.sum_nil]
    omega
  obtain ⟨calls, -, -, hcalls⟩ := hheard Store.narrow_empty
  refine ⟨last, hserves, hstarted, (hcount smallKey).trans ?_, (hcount largeKey).trans ?_, hcounted,
    hcounted ▸ htold.mpr (by rw [hcounted]; decide), calls, hcalls.mpr hnarrow⟩
  · decide
  · decide

end Exports

end TimedHttp
