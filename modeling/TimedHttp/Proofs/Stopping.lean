import TimedHttp.Proofs.Aggregates
import TimedHttp.Proofs.Dealings

/-!
# Stopping a sample

When an exchange is finished, its time is handed over for each of its timers, in order. A refusal
does not keep the timers after it from being tried, and a crash does. Whatever mixture of the two
there was, one event closes the measurement: the crash, else the first refusal, else that the
exchange was timed.

## Main definitions

* `Registry.untilCrash` — what a registry is asked, if it is asked until it crashes
* `Service.Asked` — what that does to a service
* `Policy.giving` — the policy that gives one verdict after the other

## Main statements

* `Service.asked_recordAll`, `Service.closing_recordAll` — a list of timers
* `TimingLayer.close_asks_until_crash` — the end of a running measurement
* `Registry.verdicts_giving`, `TimingLayer.exists_timersFor` — verdicts and timers may be any
-/

namespace TimedHttp

variable {σ : Type}

namespace Verdict

def isCrash : Verdict → Bool
  | crashed _ => true
  | _ => false

def refusal? : Verdict → Option RecordError
  | refused e => some e
  | _ => none

end Verdict

/-! ## Until the registry crashes -/

namespace Registry

/-- **Until the crash**: the calls with their verdicts, up to and including the first one over which
the registry crashes. -/
def untilCrash (r : Registry) (calls : List Call) : List (Call × Verdict) :=
  (calls.zip (r.verdicts calls)).take ((r.verdicts calls).findIdx Verdict.isCrash + 1)

theorem untilCrash_cons (r : Registry) (call : Call) (calls : List Call) :
    r.untilCrash (call :: calls) =
      (call, (r.ask call).2) ::
        if (r.ask call).2.isCrash then [] else (r.ask call).1.untilCrash calls := by
  simp only [untilCrash, verdicts, List.zip_cons_cons, List.findIdx_cons, List.take_succ_cons]
  cases (r.ask call).2.isCrash <;> rfl

end Registry

namespace Service

/-- **Asked**: the registry was asked some calls with the verdicts given, and noted them. Nothing
else has happened between the two states of the service. -/
def Asked (registry : Nat) (elapsed : Duration) (a : Attribution) (r : Registry) (s t : Service σ)
    (asked : List (Call × Verdict)) : Prop :=
  ∃ entries, (∀ e ∈ entries, e.IsRecording registry elapsed a) ∧
    entries.filterMap (Entry.dealing? registry) = asked.map (fun c => .asked c.1 c.2) ∧
    t = { s with
      registries := s.registries.set registry (r.after (asked.map Prod.fst))
      journal := s.journal ++ entries }

variable {registry : Nat} {elapsed : Duration} {a : Attribution} {r : Registry} {s t u : Service σ}
  {asked more : List (Call × Verdict)}

theorem Asked.nil (hr : s.registries[registry]? = some r) : s.Asked registry elapsed a r s [] := by
  obtain ⟨hlt, hget⟩ := List.getElem?_eq_some_iff.mp hr
  refine ⟨[], List.forall_mem_nil _, rfl, ?_⟩
  have hset : s.registries.set registry r = s.registries := by
    rw [← hget, List.set_getElem_self]
  rw [List.append_nil]
  show s = { s with registries := s.registries.set registry r }
  rw [hset]

theorem Asked.trans (hst : s.Asked registry elapsed a r t asked)
    (htu : t.Asked registry elapsed a (r.after (asked.map Prod.fst)) u more) :
    s.Asked registry elapsed a r u (asked ++ more) := by
  obtain ⟨entries, he, hread, rfl⟩ := hst
  obtain ⟨entries', he', hread', rfl⟩ := htu
  refine ⟨entries ++ entries', ?_, ?_, ?_⟩
  · exact List.forall_mem_append.mpr ⟨he, he'⟩
  · rw [List.filterMap_append, hread, hread', List.map_append]
  · simp only [List.set_set, List.append_assoc, Registry.after, List.map_append, List.foldl_append]

theorem record_of_some (hr : s.registries[registry]? = some r) (timer : Timer)
    (elapsed : Duration) (a : Attribution) :
    s.Asked registry elapsed a r (s.record registry timer elapsed a).1
        [(.recorded timer elapsed a, (r.ask (.recorded timer elapsed a)).2)] ∧
      (s.record registry timer elapsed a).2 = (r.ask (.recorded timer elapsed a)).2 ∧
      (s.record registry timer elapsed a).1.registries[registry]? =
        some (r.ask (.recorded timer elapsed a)).1 := by
  have hlt : registry < s.registries.length := (List.getElem?_eq_some_iff.mp hr).1
  simp only [record, hr, foldl_log]
  refine ⟨⟨(r.record timer elapsed a).2.1.map .logged ++
    [.recorded registry timer elapsed a (r.record timer elapsed a).2.2], ?_, ?_, ?_⟩, rfl, ?_⟩
  · refine List.forall_mem_append.mpr ⟨fun e he => ?_, fun e he => ?_⟩
    · obtain ⟨event, hevent, rfl⟩ := List.mem_map.mp he
      exact .inl ⟨timer, congrArg _ (requestTimed_of_mem_record hevent)⟩
    · exact .inr ⟨timer, _, List.mem_singleton.mp he⟩
  · rw [List.filterMap_append, filterMap_dealing_logged]
    simp [Entry.dealing?, Registry.ask]
  · simp [note, Registry.after, Registry.ask]
  · exact List.getElem?_set_self hlt

/-- **A list of timers** is tried one by one until the registry crashes. -/
theorem asked_recordAll (hr : s.registries[registry]? = some r) (timers : List Timer)
    (elapsed : Duration) (a : Attribution) (first : Option RecordError) :
    s.Asked registry elapsed a r (recordAll registry elapsed a timers first s).1
      (r.untilCrash (timers.map (Call.recorded · elapsed a))) := by
  induction timers generalizing s r first with
  | nil => cases first <;> exact .nil hr
  | cons timer timers ih =>
    obtain ⟨hasked, hverdict, hnext⟩ := record_of_some hr timer elapsed a
    rw [List.map_cons, Registry.untilCrash_cons]
    simp only [recordAll]
    split
    next s' h =>
      rw [h] at hasked hverdict hnext
      rw [← hverdict] at hasked ⊢
      exact hasked.trans (ih hnext first)
    next s' e h =>
      rw [h] at hasked hverdict hnext
      rw [← hverdict] at hasked ⊢
      exact hasked.trans (ih hnext (first.or (some e)))
    next s' message h =>
      -- the crash ends it, and nothing is asked of the timers after it
      rw [h] at hasked hverdict
      rw [← hverdict] at hasked ⊢
      exact hasked

/-- What came of a list of timers is told by the verdicts on all of them; `first` is a refusal from
before. -/
theorem closing_recordAll (hr : s.registries[registry]? = some r) (timers : List Timer)
    (elapsed : Duration) (a : Attribution) (first : Option RecordError) (outcome : Outcome) :
    TimingLayer.closing outcome (recordAll registry elapsed a timers first s).2 =
      if (r.verdicts (timers.map (Call.recorded · elapsed a))).any Verdict.isCrash then
        .registryCrashed
      else
        (first.or ((r.verdicts (timers.map (Call.recorded · elapsed a))).findSome?
          Verdict.refusal?)).elim (.exchangeTimed outcome.name) .measurementRefused := by
  induction timers generalizing s r first with
  | nil => cases first <;> rfl
  | cons timer timers ih =>
    obtain ⟨-, hverdict, hnext⟩ := record_of_some hr timer elapsed a
    simp only [recordAll, List.map_cons, Registry.verdicts, List.any_cons, List.findSome?_cons]
    split
    next s' h =>
      rw [h] at hverdict hnext
      rw [← hverdict, ih hnext first]
      rfl
    next s' e h =>
      rw [h] at hverdict hnext
      -- a refusal from before comes first, and this one before those of the other timers
      rw [← hverdict, ih hnext (first.or (some e)), Option.or_assoc]
      rfl
    next s' message h =>
      rw [h] at hverdict
      rw [← hverdict]
      rfl

end Service

/-! ## The end of a measurement -/

namespace TimingLayer

variable (layer : TimingLayer σ) {m : Nat} (x : Exchange σ) (failure : Option Failure)
  {s : Service σ} {sample : Sample} {a : Attribution} {r : Registry}

/-- A running measurement is closed by what comes of its timers, once the tags are resolved and the
sample has stopped. -/
theorem close_of_running (h : s.running? m = some (sample, a)) :
    let outcome := Outcome.classify x.status failure
    let tags := layer.tags x x.route outcome
    let settled := (s.attributed m a).settle (result x failure)
    let stopped := Service.recordAll sample.registry (s.now.since sample.started) settled
      (layer.timersFor x.route tags) none
      { s with
        readings := s.readings + 1
        measurements := s.measurements.set m { sample := none, attribution := settled }
        journal := s.journal ++ .tagsResolved outcome tags ::
          ((warnings tags).map .logged ++ [.sampleStopped sample.registry]) }
    layer.close m x failure s = stopped.1.log (closing outcome stopped.2) := by
  intro outcome tags settled stopped
  simp only [close, h, timers_eq, Service.foldl_log, Service.stopSample]
  have hjournal : s.journal ++ [Entry.tagsResolved outcome tags] ++ (warnings tags).map .logged ++
      [.sampleStopped sample.registry] = s.journal ++ .tagsResolved outcome tags ::
        ((warnings tags).map .logged ++ [.sampleStopped sample.registry]) := by
    simp
  simp only [stopped, ← hjournal]
  rfl

/-- **A running measurement is closed.** The tags are resolved and the sample stops. Then the time
that it ran is handed over for each timer of the exchange, in order and with one attribution, up to
and including the first timer over which the registry crashes. The attribution is that of the
finished exchange, unless its response side was settled before. The registry is asked nothing else,
and no other registry is asked. At last one event closes the measurement: that the registry crashed,
else the first refusal, else that the exchange was timed. If the tags provider crashes, this is
logged, and there is no timer. -/
theorem close_asks_until_crash (h : s.running? m = some (sample, a))
    (hr : s.registries[sample.registry]? = some r) :
    let outcome := Outcome.classify x.status failure
    let tags := layer.tags x x.route outcome
    let settled := (s.attributed m a).settle (result x failure)
    let elapsed := s.now.since sample.started
    let offered := (layer.timersFor x.route tags).map (Call.recorded · elapsed settled)
    let verdicts := r.verdicts offered
    let asked := r.untilCrash offered
    let closing : Event :=
      if verdicts.any Verdict.isCrash then .registryCrashed
      else (verdicts.findSome? Verdict.refusal?).elim (.exchangeTimed outcome.name)
        .measurementRefused
    (∀ message, tags = .error message → asked = []) ∧
      ∃ entries, (∀ e ∈ entries, e.IsRecording sample.registry elapsed settled) ∧
        entries.filterMap (Entry.dealing? sample.registry) =
          asked.map (fun c => .asked c.1 c.2) ∧
        layer.close m x failure s =
          { s with
            registries := s.registries.set sample.registry (r.after (asked.map Prod.fst))
            readings := s.readings + 1
            measurements := s.measurements.set m { sample := none, attribution := settled }
            journal := s.journal ++ .tagsResolved outcome tags :: ((warnings tags).map .logged ++
              .sampleStopped sample.registry :: (entries ++ [.logged closing])) } := by
  intro outcome tags settled elapsed offered verdicts asked closing
  refine ⟨fun message htags => ?_, ?_⟩
  · have hoffered : offered = [] := by
      simp only [offered, htags]
      rfl
    simp only [asked, hoffered]
    rfl
  · let told : Service σ := { s with
      readings := s.readings + 1
      measurements := s.measurements.set m { sample := none, attribution := settled }
      journal := s.journal ++ .tagsResolved outcome tags ::
        ((warnings tags).map .logged ++ [.sampleStopped sample.registry]) }
    have htold : told.registries[sample.registry]? = some r := hr
    let stopped := Service.recordAll sample.registry elapsed settled
      (layer.timersFor x.route tags) none told
    have hclose : layer.close m x failure s =
        stopped.1.log (TimingLayer.closing outcome stopped.2) := layer.close_of_running x failure h
    have hclosing : TimingLayer.closing outcome stopped.2 = closing :=
      Service.closing_recordAll htold _ elapsed settled none outcome
    obtain ⟨entries, he, hread, hasked⟩ : told.Asked sample.registry elapsed settled r stopped.1
        asked := Service.asked_recordAll htold _ elapsed settled none
    refine ⟨entries, he, hread, ?_⟩
    rw [hclose, hclosing, hasked]
    simp [told, Service.log, Service.note]

end TimingLayer

/-! ## Any verdicts, and any timers -/

/-- The policy that gives one verdict after the other. -/
def Policy.giving (verdicts : List Verdict) : Policy :=
  { onStart := fun _ _ => none
    onRecord := fun calls _ _ _ => verdicts.getD (calls.countP Call.isMeasurement) .taken }

/-- A guarded registry that has room for a measurement answers as its policy says. -/
theorem Registry.ask_guarded {policy : Policy} {before : List Call} {store : Store} {timer : Timer}
    {elapsed : Duration} (a : Attribution)
    (hfits : (store.summary timer.key).total.nanoseconds + elapsed.nanoseconds ≤ maxNanoseconds) :
    (guarded policy before store).ask (.recorded timer elapsed a) =
      (guarded policy (before ++ [.recorded timer elapsed a])
        (if policy.onRecord before timer elapsed a = .taken then store.record timer elapsed
          else store),
      policy.onRecord before timer elapsed a) := by
  simp only [ask, record]
  cases hverdict : policy.onRecord before timer elapsed a with
  | taken => simp [recordInto, Store.overflows, (Summary.overflows_eq_false hfits).1]
  | refused e => simp
  | crashed message => simp

/-- **Verdicts may be any**: there is a registry that gives them one after the other, if it has room
for what it takes. -/
theorem Registry.verdicts_giving (all : List Verdict) {before calls : List Call} {store : Store}
    (hroom : store.HasRoom calls) (hcalls : ∀ call ∈ calls, call.isMeasurement)
    (hlength : before.countP Call.isMeasurement + calls.length = all.length) :
    (guarded (.giving all) before store).verdicts calls =
      all.drop (before.countP Call.isMeasurement) := by
  induction calls generalizing before store with
  | nil => exact (List.drop_eq_nil_of_le (Nat.le_of_eq hlength.symm)).symm
  | cons call calls ih =>
    obtain ⟨hcall, hrest⟩ := List.forall_mem_cons.mp hcalls
    rw [List.length_cons] at hlength
    cases call with
    | started a => cases hcall
    | recorded timer elapsed a =>
      have hlt : before.countP Call.isMeasurement < all.length := by omega
      have hcount : (before ++ [Call.recorded timer elapsed a]).countP Call.isMeasurement =
          before.countP Call.isMeasurement + 1 := List.countP_append
      -- the policy has counted the measurements before this one
      have hverdict : (Policy.giving all).onRecord before timer elapsed a =
          all[before.countP Call.isMeasurement] := by
        show all.getD _ _ = _
        rw [List.getD_eq_getElem?_getD, List.getElem?_eq_getElem hlt, Option.getD_some]
      rw [verdicts, ask_guarded a hroom.fits, List.drop_eq_getElem_cons hlt, hverdict]
      refine congrArg _ ((ih ?_ hrest (by omega)).trans (by rw [hcount]))
      split
      · exact hroom.hear
      · exact hroom.tail

/-- The declaration that yields a timer. -/
def Timer.declaration (timer : Timer) : Declaration :=
  { name := some timer.name, tags := timer.tags, description := timer.description }

theorem Timer.timer_declaration (timer : Timer) (metric : String) :
    timer.declaration.timer metric .empty = timer := by
  show Timer.mk timer.name (((SortedMap.empty : Tags).extend .empty).extend timer.tags)
    timer.description = timer
  rw [SortedMap.empty_extend, SortedMap.empty_extend]

/-- **Timers may be any**: a route declares them. -/
theorem TimingLayer.timersFor_declarations (layer : TimingLayer σ) (route : Route σ)
    {timers : List Timer} (hlayer : layer.byDefault = false)
    (hroute : route.declarations = timers.map Timer.declaration) :
    layer.timersFor (some route) (.ok .empty) = timers := by
  show timersOf layer.byDefault layer.metric route.declarations .empty = timers
  rw [timersOf, hlayer, hroute]
  cases timers with
  | nil => rfl
  | cons timer timers =>
    have henabled : ((timer :: timers).map Timer.declaration).any (fun d => !d.enabled) = false :=
      List.any_eq_false.mpr fun d hd => by
        obtain ⟨t, -, rfl⟩ := List.mem_map.mp hd
        exact Bool.false_ne_true
    have hne : (timer :: timers).map Timer.declaration ≠ [] := List.cons_ne_nil _ _
    rw [if_neg hne, henabled, if_neg Bool.false_ne_true, List.map_map]
    exact (List.map_congr_left fun t _ => t.timer_declaration layer.metric).trans (List.map_id _)

/-! ## Four timers of one exchange -/

namespace Exports

def chores : List Timer := [.named "mails", .named "jobs", .named "backups", .named "reports"]

/-- The layer that times a route as it declares, and knows no tags. -/
def byDeclaration : TimingLayer Unit :=
  { registry := 0, tags := fun _ _ _ => .ok .empty, byDefault := false }

/-- An exchange whose route declares the timers. -/
def choresDone : Exchange Unit :=
  .fresh request (some
    { method := .get, pattern := "/exports", name := "exports"
      handler := fun _ => .answer (.bare .ok)
      declarations := chores.map Timer.declaration })

/-- Its measurement runs, and the registry will give these verdicts. -/
def choresTimed (verdicts : List Verdict) : Service Unit :=
  { state := ()
    registries := [.guarded (.giving verdicts) [] {}]
    measurements :=
      [{ sample := some { registry := 0, started := .zero }, attribution := .ofRequest request }]
    clock := fun _ => { nanoseconds := 7 } }

def choresOffered : List Call :=
  chores.map (Call.recorded · { nanoseconds := 7 }
    ((Attribution.ofRequest request).settle { status := .ok, error := none }))

/-- If the third timer is taken, all four are tried, and the first refusal is reported; if the
registry crashes over it, the fourth is not tried, and the crash is reported. -/
theorem chores_stopped :
    let refusing : List Verdict :=
      [.taken, .refused (.unavailable "busy"), .taken, .refused (.unavailable "full")]
    let failing : List Verdict :=
      [.taken, .refused (.unavailable "busy"), .crashed "down", .taken]
    (∀ verdicts, (choresTimed verdicts).running? 0 =
        some ({ registry := 0, started := .zero }, .ofRequest request) ∧
      (choresTimed verdicts).registries[0]? = some (.guarded (.giving verdicts) [] {})) ∧
    ((byDeclaration.close 0 choresDone none (choresTimed refusing)).journal.filterMap
        (Entry.dealing? 0) =
      .resolved (.ok .empty) :: (choresOffered.zip refusing).map (fun c => .asked c.1 c.2) ∧
      (byDeclaration.close 0 choresDone none (choresTimed refusing)).events.getLast? =
        some (.measurementRefused (.unavailable "busy"))) ∧
    (byDeclaration.close 0 choresDone none (choresTimed failing)).journal.filterMap
        (Entry.dealing? 0) =
      .resolved (.ok .empty) ::
        ((choresOffered.zip failing).take 3).map (fun c => .asked c.1 c.2) ∧
      (byDeclaration.close 0 choresDone none (choresTimed failing)).events.getLast? =
        some .registryCrashed := by
  intro refusing failing
  have htimers : byDeclaration.timersFor choresDone.route (.ok .empty) = chores :=
    TimingLayer.timersFor_declarations _ _ rfl rfl
  have hroom : ({} : Store).HasRoom choresOffered := fun key =>
    (Nat.zero_add _).symm ▸ Nat.le_trans (sum_durationsUnder_le key choresOffered) (by decide)
  have hstop : ∀ verdicts : List Verdict, verdicts.length = 4 →
      (byDeclaration.close 0 choresDone none (choresTimed verdicts)).journal.filterMap
          (Entry.dealing? 0) =
        .resolved (.ok .empty) :: ((choresOffered.zip verdicts).take
          (verdicts.findIdx Verdict.isCrash + 1)).map (fun c => .asked c.1 c.2) ∧
      (byDeclaration.close 0 choresDone none (choresTimed verdicts)).events.getLast? =
        some (if verdicts.any Verdict.isCrash then .registryCrashed
          else (verdicts.findSome? Verdict.refusal?).elim
            (.exchangeTimed (Outcome.completed .ok).name) .measurementRefused) := by
    intro verdicts hlength
    have hgiven : (Registry.guarded (.giving verdicts) [] {}).verdicts choresOffered = verdicts :=
      Registry.verdicts_giving verdicts hroom (by decide) hlength.symm
    have hoffered : (byDeclaration.timersFor choresDone.route (.ok .empty)).map (Call.recorded ·
        { nanoseconds := 7 } ((Attribution.ofRequest request).settle
          { status := .ok, error := none })) = choresOffered := by
      rw [htimers]
      rfl
    obtain ⟨-, entries, -, hread, hclose⟩ := byDeclaration.close_asks_until_crash choresDone none
      (s := choresTimed verdicts) (m := 0) rfl rfl
    have hasked : entries.filterMap (Entry.dealing? 0) =
        ((Registry.guarded (.giving verdicts) [] {}).untilCrash choresOffered).map
          (fun c => .asked c.1 c.2) := hoffered ▸ hread
    have hjournal : (byDeclaration.close 0 choresDone none (choresTimed verdicts)).journal =
        .tagsResolved (.completed .ok) (.ok .empty) :: .sampleStopped 0 :: (entries ++
          [.logged (if ((Registry.guarded (.giving verdicts) [] {}).verdicts choresOffered).any
              Verdict.isCrash then .registryCrashed
            else (((Registry.guarded (.giving verdicts) [] {}).verdicts choresOffered).findSome?
              Verdict.refusal?).elim (.exchangeTimed (Outcome.completed .ok).name)
                .measurementRefused)]) := hoffered ▸ congrArg Service.journal hclose
    rw [Registry.untilCrash, hgiven] at hasked
    rw [hgiven] at hjournal
    rw [Service.events, hjournal, ← hasked]
    constructor
    · show Dealing.resolved _ :: List.filterMap (Entry.dealing? 0) (entries ++ [_]) = _
      rw [List.filterMap_append]
      exact congrArg _ (List.append_nil _)
    · show (List.filterMap Entry.event? (entries ++ [_])).getLast? = _
      rw [List.filterMap_append]
      exact List.getLast?_concat
  exact ⟨fun _ => ⟨rfl, rfl⟩, hstop refusing rfl, hstop failing rfl⟩

end Exports

end TimedHttp
