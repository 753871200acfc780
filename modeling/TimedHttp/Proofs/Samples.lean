import TimedHttp.Proofs.Passes

/-!
# What a sample does to a service

The effect of starting, stopping, closing and abandoning a sample, as a whole: which parts of the
service change, and which entries the journal gains. What registries make of the calls to them is
their own affair, but the calls are those that the journal tells. The state of the application and
the measurements of other exchanges never change.

## Main statements

* `Told` — registries were called as the journal tells
* `Service.openMeasurement_eq` — a measurement starts, perhaps with a response side settled at once
* `Service.stopSample_eq` — a sample stops and is recorded
* `TimingLayer.close_eq`, `Service.abandon_eq` — the two ends of a running measurement
* `Chain.entered_of_some`, `Chain.entered_of_none` — a timing layer is entered
-/

namespace TimedHttp

variable {σ : Type}

/-- The entry says that a measurement was handed to a registry, or is what the registry logged. -/
def Entry.IsRecording (registry : Nat) (elapsed : Duration) (a : Attribution) (e : Entry) : Prop :=
  (∃ timer, e = .logged (.requestTimed timer a)) ∨
    ∃ timer verdict, e = .recorded registry timer elapsed a verdict

/-! ## Calls to registries -/

/-- The call to a registry that an entry tells of. -/
def Entry.callTo (registry : Nat) : Entry → Option Call
  | sampleStarted r a => if r = registry then some (.started a) else none
  | recorded r timer elapsed a _ => if r = registry then some (.recorded timer elapsed a) else none
  | _ => none

/-- The calls to the registry of a number, if it notes them. -/
def callsAt (registries : List Registry) (registry : Nat) : Option (List Call) :=
  registries[registry]?.bind Registry.calls?

/-- **Told**: each registry that notes its calls was called as the entries tell, in their order. -/
def Told (before after : List Registry) (entries : List Entry) : Prop :=
  ∀ i, callsAt after i = (callsAt before i).map (· ++ entries.filterMap (Entry.callTo i))

theorem Registry.calls?_start (r : Registry) (a : Attribution) :
    (r.start a).1.calls? = r.calls?.map (· ++ [.started a]) := by
  cases r with
  | memory | logging => rfl
  | guarded policy calls store =>
    simp only [start]
    split <;> rfl

theorem Registry.calls?_record (r : Registry) (timer : Timer) (elapsed : Duration)
    (a : Attribution) :
    (r.record timer elapsed a).1.calls? = r.calls?.map (· ++ [.recorded timer elapsed a]) := by
  cases r with
  | memory | logging => rfl
  | guarded policy calls store =>
    simp only [record]
    split <;> rfl

namespace Told

variable {before between after : List Registry} {entries more : List Entry}

theorem refl (registries : List Registry) (h : ∀ e ∈ entries, ∀ i, e.callTo i = none) :
    Told registries registries entries := by
  intro i
  rw [List.filterMap_eq_nil_iff.mpr fun e he => h e he i]
  simp

theorem trans (h : Told before between entries) (h' : Told between after more) :
    Told before after (entries ++ more) := by
  intro i
  rw [h' i, h i, Option.map_map, List.filterMap_append]
  exact congrArg (fun f => Option.map f _) (funext fun calls => List.append_assoc _ _ _)

/-- One registry is called, if it is there. -/
theorem call {registry : Nat} {e : Entry} {call : Call} {r r' : Registry}
    (hr : before[registry]? = some r) (hcalls : r'.calls? = r.calls?.map (· ++ [call]))
    (he : ∀ i, e.callTo i = if registry = i then some call else none) :
    Told before (before.set registry r') [e] := by
  intro i
  by_cases hi : registry = i
  · subst hi
    have hlt : registry < before.length := (List.getElem?_eq_some_iff.mp hr).1
    simp [callsAt, hr, hcalls, List.getElem?_set_self hlt, he]
  · simp [callsAt, List.getElem?_set_ne hi, he, hi]

/-- A registry that is not there is not called. -/
theorem missing {registry : Nat} {e : Entry} {call : Call} (hr : before[registry]? = none)
    (he : ∀ i, e.callTo i = if registry = i then some call else none) :
    Told before before [e] := by
  intro i
  by_cases hi : registry = i
  · subst hi
    simp [callsAt, hr]
  · simp [he, hi]

end Told

namespace Service

theorem foldl_log (s : Service σ) (events : List Event) :
    events.foldl log s = { s with journal := s.journal ++ events.map .logged } := by
  induction events generalizing s with
  | nil => simp
  | cons event events ih =>
    rw [List.foldl_cons, ih]
    simp [log, note]

theorem requestTimed_of_mem_record {r : Registry} {timer : Timer} {elapsed : Duration}
    {a : Attribution} {event : Event} (h : event ∈ (r.record timer elapsed a).2.1) :
    event = .requestTimed timer a := by
  cases r with
  | memory store => cases h
  | logging => exact List.mem_singleton.mp h
  | guarded policy calls store =>
    simp only [Registry.record] at h
    split at h <;> cases h

theorem record_eq (s : Service σ) (registry : Nat) (timer : Timer) (elapsed : Duration)
    (a : Attribution) :
    ∃ registries entries, (∀ e ∈ entries, e.IsRecording registry elapsed a) ∧
      Told s.registries registries entries ∧
      (s.record registry timer elapsed a).1 =
        { s with registries, journal := s.journal ++ entries } := by
  simp only [record]
  split
  next hr =>
    refine ⟨s.registries, [.recorded registry timer elapsed a .taken], ?_,
      .missing hr fun _ => rfl, rfl⟩
    intro e he
    exact .inr ⟨timer, .taken, List.mem_singleton.mp he⟩
  next r hr =>
    rw [foldl_log]
    refine ⟨s.registries.set registry (r.record timer elapsed a).1,
      (r.record timer elapsed a).2.1.map .logged ++
        [.recorded registry timer elapsed a (r.record timer elapsed a).2.2], ?_, ?_, ?_⟩
    · intro e he
      rcases List.mem_append.mp he with he | he
      · obtain ⟨event, hevent, rfl⟩ := List.mem_map.mp he
        exact .inl ⟨timer, congrArg _ (requestTimed_of_mem_record hevent)⟩
      · exact .inr ⟨timer, _, List.mem_singleton.mp he⟩
    · have hlogged : ∀ e ∈ (r.record timer elapsed a).2.1.map Entry.logged, ∀ i,
          e.callTo i = none := by simp [Entry.callTo]
      exact (Told.refl s.registries hlogged).trans
        (.call hr (r.calls?_record timer elapsed a) fun _ => rfl)
    · simp [note]

/-- Recording a list of timers, whatever the registry makes of each. -/
theorem recordAll_eq (s : Service σ) (registry : Nat) (elapsed : Duration) (a : Attribution)
    (timers : List Timer) (first : Option RecordError) :
    ∃ registries entries, (∀ e ∈ entries, e.IsRecording registry elapsed a) ∧
      Told s.registries registries entries ∧
      (recordAll registry elapsed a timers first s).1 =
        { s with registries, journal := s.journal ++ entries } := by
  induction timers generalizing s first with
  | nil =>
    have htold : Told s.registries s.registries [] := .refl _ (List.forall_mem_nil _)
    cases first <;> exact ⟨s.registries, [], List.forall_mem_nil _, htold, by simp [recordAll]⟩
  | cons timer timers ih =>
    obtain ⟨rs, es, hes, htold, hrecord⟩ := s.record_eq registry timer elapsed a
    -- what the registry did to this timer comes before what it does to the others
    have later : ∀ first', ∃ registries entries, (∀ e ∈ entries, e.IsRecording registry elapsed a) ∧
        Told s.registries registries entries ∧
        (recordAll registry elapsed a timers first'
          (s.record registry timer elapsed a).1).1 =
          { s with registries, journal := s.journal ++ entries } := by
      intro first'
      obtain ⟨rs', es', hes', htold', hall⟩ := ih (s.record registry timer elapsed a).1 first'
      rw [hrecord] at htold'
      refine ⟨rs', es ++ es', ?_, htold.trans htold', ?_⟩
      · intro e he
        exact (List.mem_append.mp he).elim (hes e) (hes' e)
      · rw [hall, hrecord]
        simp [List.append_assoc]
    simp only [recordAll]
    split
    next s' h =>
      rw [show s' = (s.record registry timer elapsed a).1 from (congrArg Prod.fst h).symm]
      exact later first
    next s' e h =>
      rw [show s' = (s.record registry timer elapsed a).1 from (congrArg Prod.fst h).symm]
      exact later (first.or (some e))
    next s' message h =>
      refine ⟨rs, es, hes, htold, ?_⟩
      rw [← hrecord, h]

/-- **A sample stops** and is recorded into some timers. -/
theorem stopSample_eq (s : Service σ) (sample : Sample) (a : Attribution) (timers : List Timer) :
    ∃ registries entries,
      (∀ e ∈ entries, e.IsRecording sample.registry (s.now.since sample.started) a) ∧
      Told s.registries registries entries ∧
      (s.stopSample sample a timers).1 =
        { s with
          registries
          readings := s.readings + 1
          journal := s.journal ++ .sampleStopped sample.registry :: entries } := by
  obtain ⟨registries, entries, he, htold, heq⟩ :=
    (s.readClock.note (.sampleStopped sample.registry)).recordAll_eq sample.registry
      (s.now.since sample.started) a timers none
  refine ⟨registries, entries, he, htold, ?_⟩
  simp only [stopSample, heq]
  simp [note, readClock]

/-- The response side that a registry settles when a sample starts. -/
def startResult (s : Service σ) (registry : Nat) (a : Attribution) : Option ExchangeResult :=
  s.registries[registry]?.bind fun r => (r.start a).2.1

/-- **A measurement starts**: its sample runs, whatever the registry makes of it. -/
theorem openMeasurement_eq (s : Service σ) (registry : Nat) (a : Attribution) :
    ∃ (registries : List Registry) (events : List Event),
      (∀ event ∈ events, event = .startHookCrashed ∨ event = .spanOpened a) ∧
      Told s.registries registries [.sampleStarted registry a] ∧
      s.openMeasurement registry a =
        { s with
          registries
          readings := s.readings + 1
          measurements := s.measurements ++
            [{ sample := some { registry, started := s.now }, attribution := a }]
          early := s.early.start s.measurements.length (s.startResult registry a)
          journal := s.journal ++ .sampleStarted registry a :: events.map .logged } := by
  simp only [openMeasurement, startSample, note]
  -- without a registry of that number there is nobody to tell
  split
  next hr =>
    exact ⟨s.registries, [.spanOpened a], by simp, .missing hr fun _ => rfl,
      by simp [hr, startResult, log, note, readClock, now]⟩
  next r hr =>
    have htold : Told s.registries (s.registries.set registry (r.start a).1)
        [.sampleStarted registry a] := .call hr (r.calls?_start a) fun _ => rfl
    by_cases hcrash : (r.start a).2.2.isSome
    · exact ⟨s.registries.set registry (r.start a).1, [.startHookCrashed, .spanOpened a],
        by simp, htold, by simp [hr, startResult, hcrash, log, note, readClock, now]⟩
    · exact ⟨s.registries.set registry (r.start a).1, [.spanOpened a],
        by simp, htold, by simp [hr, startResult, hcrash, log, note, readClock, now]⟩

theorem running?_eq_some_iff {s : Service σ} {m : Nat} {sample : Sample} {a : Attribution} :
    s.running? m = some (sample, a) ↔
      s.measurements[m]? = some { sample := some sample, attribution := a } := by
  simp only [running?]
  split
  next sample' a' h => simp [h]
  next h =>
    refine ⟨nofun, fun e => absurd e (h sample a)⟩

/-- **A running measurement is abandoned**: its sample stops, and nothing is recorded. -/
theorem abandon_eq {s : Service σ} {m : Nat} {sample : Sample} {a : Attribution}
    (h : s.running? m = some (sample, a)) :
    s.abandon m =
      { s with
        readings := s.readings + 1
        measurements := s.measurements.set m { sample := none, attribution := a }
        journal := s.journal ++
          [.logged .exchangeAbandoned, .sampleStopped sample.registry] } := by
  simp [abandon, h, stopSample, recordAll, finish, log, note, readClock]

theorem abandon_of_stopped {s : Service σ} {m : Nat} (h : s.running? m = none) :
    s.abandon m = s := by
  simp [abandon, h]

end Service

namespace TimingLayer

/-- The response side of a measurement that is closed with a failure or without. -/
def result (x : Exchange σ) (failure : Option Failure) : ExchangeResult :=
  { status := x.status, error := (Outcome.classify x.status failure).errorClass }

/-- **A running measurement is closed**: outcome and tags are noted, the sample stops, and all that
is recorded carries the attribution with its response side. -/
theorem close_eq (layer : TimingLayer σ) {m : Nat} (x : Exchange σ) (failure : Option Failure)
    {s : Service σ} {sample : Sample} {a : Attribution} (h : s.running? m = some (sample, a)) :
    ∃ (registries : List Registry) (warnings : List Event) (elapsed : Duration)
      (entries : List Entry) (stopped : Stopped),
      (∀ event ∈ warnings, event = .tagsProviderCrashed) ∧
      (∀ e ∈ entries,
        e.IsRecording sample.registry elapsed ((s.attributed m a).settle (result x failure))) ∧
      Told s.registries registries entries ∧
      layer.close m x failure s =
        { s with
          registries
          readings := s.readings + 1
          measurements := s.measurements.set m
            { sample := none, attribution := (s.attributed m a).settle (result x failure) }
          journal := s.journal ++
            (.tagsResolved (Outcome.classify x.status failure)
                (layer.tags x x.route (Outcome.classify x.status failure)) ::
              (warnings.map .logged ++ .sampleStopped sample.registry :: (entries ++
                [.logged (closing (Outcome.classify x.status failure) stopped)]))) } := by
  let outcome := Outcome.classify x.status failure
  let settled := (s.attributed m a).settle (result x failure)
  let told := (layer.timers x outcome).1.foldl Service.log
    ((s.finish m settled).note (.tagsResolved outcome (layer.tags x x.route outcome)))
  -- what was told to the journal before the sample stops
  have hclose : layer.close m x failure s =
      (told.stopSample sample settled (layer.timers x outcome).2).1.log
        (closing outcome (told.stopSample sample settled (layer.timers x outcome).2).2) := by
    simp only [close, h]
    rfl
  have hregistries : told.registries = s.registries := by
    simp only [told, Service.foldl_log]
    rfl
  obtain ⟨registries, entries, hentries, hcalls, hstop⟩ :=
    told.stopSample_eq sample settled (layer.timers x outcome).2
  refine ⟨registries, (layer.timers x outcome).1, _, entries,
    (told.stopSample sample settled (layer.timers x outcome).2).2, ?_, hentries, ?_, ?_⟩
  · intro event hevent
    simp only [timers] at hevent
    split at hevent
    · cases hevent
    · exact List.mem_singleton.mp hevent
  · rw [← hregistries]
    exact hcalls
  · rw [hclose, hstop]
    simp only [told, Service.foldl_log]
    simp [Service.log, Service.note, Service.finish, outcome, settled]

theorem close_of_stopped {layer : TimingLayer σ} {m : Nat} {x : Exchange σ}
    {failure : Option Failure} {s : Service σ} (h : s.running? m = none) :
    layer.close m x failure s = s.log .sampleAlreadyStopped := by
  simp [close, h]

/-! ## Leaving a timing layer -/

theorem leave_of_deferred {layer : TimingLayer σ} {m : Nat} {p : Passage σ}
    (h : p.exchange.pending ≠ none) :
    layer.leave m p (.returned (.ok ())) = p.log .sampleLeftRunning := by
  simp [leave, Exchange.isDeferred, Option.isSome_iff_ne_none.mpr h]

theorem leave_of_finished {layer : TimingLayer σ} {m : Nat} {p : Passage σ}
    (h : p.exchange.pending = none) :
    layer.leave m p (.returned (.ok ())) =
      { p with
        service := layer.close m p.exchange (p.exchange.error.map .captured) p.service } := by
  simp [leave, Exchange.isDeferred, h]

end TimingLayer

/-! ## Entering a timing layer -/

namespace Chain

theorem measured_of_some (position : Nat) (layer : TimingLayer σ) {p : Passage σ} {m : Nat}
    (h : p.exchange.measurement = some m) : measured position layer p = m := by
  have hn : (p.note (.layerEntered position)).exchange.measurement = some m := h
  simp only [measured, TimingLayer.enter, hn]

theorem measured_of_none (position : Nat) (layer : TimingLayer σ) {p : Passage σ}
    (h : p.exchange.measurement = none) :
    measured position layer p = p.service.measurements.length := by
  have hn : (p.note (.layerEntered position)).exchange.measurement = none := h
  simp only [measured, TimingLayer.enter, hn]
  rfl

/-- **A measurement that is there is taken up.** -/
theorem entered_of_some (position : Nat) (layer : TimingLayer σ) {p : Passage σ} {m : Nat}
    (h : p.exchange.measurement = some m) :
    entered position layer p =
      { p with
        service := { p.service with
          journal := p.service.journal ++ [.layerEntered position, .measuring position m] } } := by
  have hn : (p.note (.layerEntered position)).exchange.measurement = some m := h
  simp only [entered, TimingLayer.enter, hn]
  simp [Passage.note, Service.note]

/-- **Without a measurement, one is started** in the registry of the layer. -/
theorem entered_of_none (position : Nat) (layer : TimingLayer σ) {p : Passage σ}
    (h : p.exchange.measurement = none) :
    ∃ (registries : List Registry) (events : List Event),
      (∀ event ∈ events,
        event = .startHookCrashed ∨ event = .spanOpened (.ofRequest p.exchange.request)) ∧
      Told p.service.registries registries
        [.sampleStarted layer.registry (.ofRequest p.exchange.request)] ∧
      entered position layer p =
        { service := { p.service with
            registries
            readings := p.service.readings + 1
            measurements := p.service.measurements ++
              [{ sample := some { registry := layer.registry, started := p.service.now }
                 attribution := .ofRequest p.exchange.request }]
            early := p.service.early.start p.service.measurements.length
              (p.service.startResult layer.registry (.ofRequest p.exchange.request))
            journal := p.service.journal ++
              .layerEntered position ::
                .sampleStarted layer.registry (.ofRequest p.exchange.request) ::
                (events.map .logged ++ [.measuring position p.service.measurements.length]) }
          exchange := { p.exchange with measurement := some p.service.measurements.length } } := by
  obtain ⟨registries, events, hevents, htold, hopen⟩ :=
    (p.service.note (.layerEntered position)).openMeasurement_eq layer.registry
      (.ofRequest p.exchange.request)
  have hn : (p.note (.layerEntered position)).exchange.measurement = none := h
  refine ⟨registries, events, hevents, htold, ?_⟩
  simp only [entered, TimingLayer.enter, hn]
  simp only [Passage.note, hopen]
  simp [Service.note, Service.startResult, Exchange.attach, h, Service.now]

/-- Inside a timing layer the exchange has the measurement that the layer has at hand. -/
theorem measurement_entered (position : Nat) (layer : TimingLayer σ) (p : Passage σ) :
    (entered position layer p).exchange.measurement = some (measured position layer p) := by
  cases hm : p.exchange.measurement with
  | some m => rw [entered_of_some _ _ hm, measured_of_some _ _ hm, hm]
  | none =>
    obtain ⟨registries, events, -, -, heq⟩ := entered_of_none position layer hm
    rw [heq, measured_of_none _ _ hm]

end Chain

end TimedHttp
