import TimedHttp.Proofs.FinalOutcome
import TimedHttp.Proofs.PassCount

/-!
# What a request asks of its registry

With one timing layer, outermost, a request that is answered tells the registry once that its sample
starts, and hands it once, at the end, one measurement for each timer of the exchange, all with the
same elapsed time. Between the two, and whatever the registry answers, it asks nothing else.

## Main definitions

* `Dealing` — what the journal tells of a measurement
* `HandedOver` — timers are handed over one after the other
* `Store.AnswersAll` — a store answers dealings, one after the other
* `Service.Deals` — what happened to a registry between two states of a service

## Main statements

* `Service.deals_recordAll`, `TimingLayer.deals_close` — the end of a measurement
* `Sampling` — the invariant between passes
* `App.deals_of_handled` — all that a request asks
-/

namespace TimedHttp

variable {σ : Type}

/-- **Dealing** of a measurement in the journal: a call to its registry with what came of it, or the
tags of the finished exchange. -/
inductive Dealing where
  | asked (call : Call) (verdict : Verdict)
  | resolved (tags : Except String Tags)

/-- What an entry tells of the measurements of a registry. -/
def Entry.dealing? (registry : Nat) : Entry → Option Dealing
  | sampleStarted r a => if r = registry then some (.asked (.started a) .taken) else none
  | recorded r timer elapsed a verdict =>
    if r = registry then some (.asked (.recorded timer elapsed a) verdict) else none
  | tagsResolved _ tags => some (.resolved tags)
  | _ => none

theorem filterMap_dealing_logged (registry : Nat) (events : List Event) :
    (events.map Entry.logged).filterMap (Entry.dealing? registry) = [] := by
  simp [Entry.dealing?]

/-- **Handed over**: timers are handed to a registry one after the other, each with the same elapsed
time and attribution, until the registry crashes. -/
inductive HandedOver (elapsed : Duration) (a : Attribution) : List Timer → List Dealing → Prop
  | nil : HandedOver elapsed a [] []
  | crash {timer : Timer} {timers : List Timer} {message : String} :
      HandedOver elapsed a (timer :: timers) [.asked (.recorded timer elapsed a) (.crashed message)]
  | next {timer : Timer} {timers : List Timer} {verdict : Verdict} {dealings : List Dealing} :
      (∀ message, verdict ≠ .crashed message) → HandedOver elapsed a timers dealings →
      HandedOver elapsed a (timer :: timers)
        (.asked (.recorded timer elapsed a) verdict :: dealings)

/-! ## A store that answers -/

namespace Store

/-- **A store answers** a call as the dealing tells. Tags do not concern it. -/
inductive Answers (store : Store) : Dealing → Store → Prop
  | start (a : Attribution) : Answers store (.asked (.started a) .taken) store.start
  | record (timer : Timer) (elapsed : Duration) (a : Attribution) :
      Answers store (.asked (.recorded timer elapsed a)
        (Registry.recordInto store timer elapsed).2) (Registry.recordInto store timer elapsed).1
  | tags (tags : Except String Tags) : Answers store (.resolved tags) store

inductive AnswersAll : Store → List Dealing → Store → Prop
  | nil (store : Store) : AnswersAll store [] store
  | cons {store between last : Store} {dealing : Dealing} {dealings : List Dealing} :
      store.Answers dealing between → AnswersAll between dealings last →
      AnswersAll store (dealing :: dealings) last

variable {store between last : Store} {dealing : Dealing} {dealings more : List Dealing}

theorem Answers.all (h : store.Answers dealing last) : store.AnswersAll [dealing] last :=
  .cons h (.nil last)

theorem AnswersAll.append (h : store.AnswersAll dealings between)
    (h' : between.AnswersAll more last) : store.AnswersAll (dealings ++ more) last := by
  induction h with
  | nil => exact h'
  | cons hanswer _ ih => exact .cons hanswer (ih h')

end Store

/-- **Deals**: what the journal gained tells these dealings with a registry, and if the registry
keeps summaries, its store answered them. -/
structure Service.Deals (registry : Nat) (s t : Service σ) (dealings : List Dealing) : Prop where
  told : s.Gains (Entry.dealing? registry) t dealings
  answered : ∀ store, s.registries[registry]? = some (.memory store) →
    ∃ last, t.registries[registry]? = some (.memory last) ∧ store.AnswersAll dealings last

namespace Service.Deals

variable {registry : Nat} {s t u : Service σ} {dealings more : List Dealing}

theorem of_told (h : s.Gains (Entry.dealing? registry) t []) (hr : t.registries = s.registries) :
    s.Deals registry t [] :=
  ⟨h, fun store hstore => ⟨store, hr ▸ hstore, .nil store⟩⟩

theorem trans (hst : s.Deals registry t dealings) (htu : t.Deals registry u more) :
    s.Deals registry u (dealings ++ more) := by
  refine ⟨hst.told.trans htu.told, fun store hstore => ?_⟩
  obtain ⟨between, hbetween, hanswered⟩ := hst.answered store hstore
  obtain ⟨last, hlast, hmore⟩ := htu.answered between hbetween
  exact ⟨last, hlast, hanswered.append hmore⟩

theorem calm (hst : s.Deals registry t dealings) (htu : t.Deals registry u []) :
    s.Deals registry u dealings := by
  have hall := hst.trans htu
  rwa [List.append_nil] at hall

theorem note (h : s.Deals registry t dealings) {e : Entry} (he : e.dealing? registry = none) :
    s.Deals registry (t.note e) dealings :=
  h.calm (.of_told ⟨[e], rfl, by simp [he]⟩ rfl)

end Service.Deals

/-! ## The ends of a measurement -/

namespace Service

theorem deals_openMeasurement (s : Service σ) (registry : Nat) (a : Attribution) :
    s.Deals registry (s.openMeasurement registry a) [.asked (.started a) .taken] := by
  refine ⟨?_, fun store hstore => ?_⟩
  · obtain ⟨registries, events, -, -, heq⟩ := s.openMeasurement_eq registry a
    rw [heq]
    refine ⟨_, rfl, ?_⟩
    rw [List.filterMap_cons, filterMap_dealing_logged]
    simp [Entry.dealing?]
  · have hlt : registry < s.registries.length := (List.getElem?_eq_some_iff.mp hstore).1
    refine ⟨store.start, ?_, (Store.Answers.start a).all⟩
    simp only [openMeasurement, startSample, note, hstore, Registry.start]
    exact List.getElem?_set_self hlt

theorem deals_record (s : Service σ) (registry : Nat) (timer : Timer) (elapsed : Duration)
    (a : Attribution) :
    s.Deals registry (s.record registry timer elapsed a).1
      [.asked (.recorded timer elapsed a) (s.record registry timer elapsed a).2] := by
  refine ⟨?_, fun store hstore => ?_⟩
  · simp only [record]
    split
    next => exact ⟨[.recorded registry timer elapsed a .taken], rfl, by simp [Entry.dealing?]⟩
    next r hr =>
      -- what the registry logs stands before the measurement
      rw [foldl_log]
      refine ⟨(r.record timer elapsed a).2.1.map .logged ++
        [.recorded registry timer elapsed a (r.record timer elapsed a).2.2], ?_, ?_⟩
      · simp [note]
      · rw [List.filterMap_append, filterMap_dealing_logged]
        simp [Entry.dealing?]
  · have hlt : registry < s.registries.length := (List.getElem?_eq_some_iff.mp hstore).1
    refine ⟨(Registry.recordInto store timer elapsed).1, ?_, ?_⟩
    · simp only [record, hstore, Registry.record]
      exact List.getElem?_set_self hlt
    · simp only [record, hstore, Registry.record]
      exact (Store.Answers.record timer elapsed a).all

theorem deals_recordAll (s : Service σ) (registry : Nat) (elapsed : Duration) (a : Attribution)
    (timers : List Timer) (first : Option RecordError) :
    ∃ dealings, HandedOver elapsed a timers dealings ∧
      s.Deals registry (recordAll registry elapsed a timers first s).1 dealings := by
  induction timers generalizing s first with
  | nil =>
    have hnone : s.Deals registry s [] := .of_told ⟨[], (List.append_nil _).symm, rfl⟩ rfl
    cases first <;> exact ⟨[], .nil, hnone⟩
  | cons timer timers ih =>
    have hrecord := s.deals_record registry timer elapsed a
    simp only [recordAll]
    split
    next s' h =>
      rw [h] at hrecord
      obtain ⟨dealings, hdealings, hdeals⟩ := ih s' first
      exact ⟨_, .next (by simp) hdealings, hrecord.trans hdeals⟩
    next s' e h =>
      rw [h] at hrecord
      obtain ⟨dealings, hdealings, hdeals⟩ := ih s' (first.or (some e))
      exact ⟨_, .next (by simp) hdealings, hrecord.trans hdeals⟩
    next s' message h =>
      rw [h] at hrecord
      exact ⟨_, .crash, hrecord⟩

theorem deals_stopSample (s : Service σ) (sample : Sample) (a : Attribution)
    (timers : List Timer) :
    ∃ elapsed dealings, HandedOver elapsed a timers dealings ∧
      s.Deals sample.registry (s.stopSample sample a timers).1 dealings := by
  obtain ⟨dealings, hdealings, hdeals⟩ :=
    (s.readClock.note (.sampleStopped sample.registry)).deals_recordAll sample.registry
      (s.now.since sample.started) a timers none
  have hstop : s.Deals sample.registry (s.readClock.note (.sampleStopped sample.registry)) [] :=
    .of_told ⟨[_], rfl, rfl⟩ rfl
  exact ⟨_, dealings, hdealings, hstop.trans hdeals⟩

end Service

namespace TimingLayer

/-- The timers of a finished exchange, by its route and its tags: none if there are no tags. -/
def timersFor (layer : TimingLayer σ) (route : Option (Route σ)) : Except String Tags → List Timer
  | .ok tags =>
    timersOf layer.byDefault layer.metric ((route.map Route.declarations).getD []) tags
  | .error _ => []

/-- What is logged of the tags: a warning if the provider crashed. -/
def warnings : Except String Tags → List Event
  | .ok _ => []
  | .error _ => [.tagsProviderCrashed]

theorem timers_eq (layer : TimingLayer σ) (x : Exchange σ) (outcome : Outcome) :
    layer.timers x outcome =
      (warnings (layer.tags x x.route outcome),
        layer.timersFor x.route (layer.tags x x.route outcome)) := by
  simp only [timers]
  cases layer.tags x x.route outcome <;> rfl

/-- The tags of an exchange that has finished, perhaps with a failure. -/
def resolve (layer : TimingLayer σ) (x : Exchange σ) (failure : Option Failure) :
    Except String Tags :=
  layer.tags x x.route (Outcome.classify x.status failure)

/-- **A running measurement is closed**: the tags are resolved, and the timers handed over. -/
theorem deals_close (layer : TimingLayer σ) {m : Nat} (x : Exchange σ) (failure : Option Failure)
    {s : Service σ} {sample : Sample} {a : Attribution} (h : s.running? m = some (sample, a)) :
    ∃ elapsed b dealings,
      HandedOver elapsed b (layer.timersFor x.route (layer.resolve x failure)) dealings ∧
      s.Deals sample.registry (layer.close m x failure s)
        (.resolved (layer.resolve x failure) :: dealings) := by
  let outcome := Outcome.classify x.status failure
  let settled := (s.attributed m a).settle (result x failure)
  let tags := layer.tags x x.route outcome
  let resolved := (s.finish m settled).note (.tagsResolved outcome tags)
  let warned := (layer.timers x outcome).1.foldl Service.log resolved
  have htimers : (layer.timers x outcome).2 = layer.timersFor x.route tags := by
    rw [timers_eq]
  obtain ⟨elapsed, dealings, hdealings, hstop⟩ :=
    warned.deals_stopSample sample settled (layer.timers x outcome).2
  have hresolved : s.Deals sample.registry resolved [.resolved tags] :=
    ⟨⟨[_], rfl, rfl⟩, fun store hstore => ⟨store, hstore, (Store.Answers.tags tags).all⟩⟩
  have hwarned : resolved.Deals sample.registry warned [] := by
    simp only [warned, Service.foldl_log]
    exact .of_told ⟨_, rfl, filterMap_dealing_logged _ _⟩ rfl
  have hclosed : (warned.stopSample sample settled (layer.timers x outcome).2).1.Deals
      sample.registry (layer.close m x failure s) [] := by
    simp only [close, h]
    exact .of_told ⟨[_], rfl, rfl⟩ rfl
  rw [htimers] at hdealings
  exact ⟨elapsed, settled, dealings, hdealings,
    hresolved.trans ((hwarned.trans hstop).calm hclosed)⟩

end TimingLayer

/-- Nothing that ends a measurement happens when a timing layer is entered. -/
theorem Chain.adds_entered_open (position : Nat) (layer : TimingLayer σ) (p : Passage σ) :
    p.service.Adds (¬ ·.IsClosing) (entered position layer p).service := by
  cases hm : p.exchange.measurement with
  | some m =>
    rw [entered_of_some _ _ hm]
    exact ⟨_, by simp [Entry.IsClosing], rfl⟩
  | none =>
    obtain ⟨registries, events, -, -, heq⟩ := entered_of_none position layer hm
    rw [heq]
    refine ⟨_, ?_, rfl⟩
    intro e he
    simp only [List.mem_cons, List.mem_append, List.mem_map, List.not_mem_nil, or_false] at he
    obtain rfl | rfl | ⟨event, -, rfl⟩ | rfl := he <;> exact id

theorem Chain.deals_entered (position : Nat) (layer : TimingLayer σ) (p : Passage σ) :
    p.service.Deals layer.registry (entered position layer p).service
      (if p.exchange.measurement.isSome then []
        else [.asked (.started (.ofRequest p.exchange.request)) .taken]) := by
  cases hm : p.exchange.measurement with
  | some m =>
    rw [entered_of_some _ _ hm]
    exact .of_told ⟨_, rfl, rfl⟩ rfl
  | none =>
    have hentered : p.service.Deals layer.registry (p.service.note (.layerEntered position)) [] :=
      .of_told ⟨[_], rfl, rfl⟩ rfl
    have hopened := (hentered.trans (Service.deals_openMeasurement _ layer.registry
      (.ofRequest p.exchange.request))).note
        (e := .measuring position p.service.measurements.length) rfl
    have hn : (p.note (.layerEntered position)).exchange.measurement = none := hm
    simp only [entered, TimingLayer.enter, hn]
    exact hopened

/-! ## Over a pass -/

theorem Exchange.Edited.route {x y : Exchange σ} (h : x.Edited y) : y.route = x.route :=
  h.continues.2

theorem Chain.route_run (position : Nat) (layers : List (Layer σ)) (p : Passage σ) :
    (run position layers p).1.exchange.route = p.exchange.route :=
  (continues_run position layers p).2

namespace Passage

theorem deals_runWork (p : Passage σ) (work : Work σ) (registry : Nat) :
    p.service.Deals registry (p.runWork work).service [] := by
  rcases p.runWork_cases work with ⟨reply, -, -, heq⟩ | ⟨e, status, -, heq⟩
  · rw [heq]
    exact .of_told ⟨[_, _], rfl, rfl⟩ rfl
  · rw [heq]
    exact .of_told ⟨[_, _, _], rfl, rfl⟩ rfl

theorem deals_answerError (p : Passage σ) (e : ChainError) (registry : Nat) :
    p.service.Deals registry (p.answerError e).service [] := by
  obtain ⟨readings, measurements, heq, -⟩ := p.answerError_eq_aftermath e
  rw [heq]
  refine .of_told ⟨p.aftermath e, rfl, List.filterMap_eq_nil_iff.mpr fun entry hentry => ?_⟩ rfl
  rcases eq_of_mem_aftermath hentry with ⟨event, rfl⟩ | ⟨registry, rfl⟩ <;> rfl

end Passage

/-- **The invariant between passes**: the registry was told that the sample started, unless this is
the first pass, and was asked nothing else. -/
structure Sampling (layer : TimingLayer σ) (base : Service σ) (a : Attribution)
    (route : Option (Route σ)) (p : Passage σ) : Prop where
  route : p.exchange.route = route
  measured : p.Measurable layer base a
  deals : base.Deals layer.registry p.service
    (if p.exchange.measurement.isSome then [.asked (.started a) .taken] else [])

/-- **The invariant inside the timing layer**, when the inner stages have ended. -/
structure Sampled (layer : TimingLayer σ) (base : Service σ) (a : Attribution)
    (route : Option (Route σ)) (q : Passage σ) : Prop where
  route : q.exchange.route = route
  measured : q.Measured layer base a
  deals : base.Deals layer.registry q.service [.asked (.started a) .taken]

namespace Sampling

variable {layer : TimingLayer σ} {base : Service σ} {a : Attribution} {route : Option (Route σ)}
  {p p' : Passage σ} {app : App σ} {layers : List (Layer σ)}

theorem start (layer : TimingLayer σ) (app : App σ) (request : Request) (service : Service σ) :
    Sampling layer service (.ofRequest request) (app.begin request).route
      (app.start request service) := by
  obtain ⟨params, route, hx⟩ := app.begin_fresh request
  have hfresh : (app.start request service).exchange = .fresh { request with params } route := hx
  refine ⟨rfl, .inr ⟨?_, rfl, ?_⟩, ?_⟩
  · rw [hfresh]
    rfl
  · rw [hfresh]
    rfl
  · rw [hfresh]
    exact .of_told ⟨[], (List.append_nil _).symm, rfl⟩ rfl

theorem entered (h : Sampling layer base a route p) :
    base.Deals layer.registry (Chain.entered 0 layer (App.opened p)).service
      [.asked (.started a) .taken] := by
  have hopened : base.Deals layer.registry (App.opened p).service _ := h.deals.note rfl
  have hentered := Chain.deals_entered 0 layer (App.opened p)
  rcases h.measured with hmeasured | ⟨hnone, -, ha⟩
  · have hm : (App.opened p).exchange.measurement = some base.measurements.length := hmeasured.1
    rw [hm, Option.isSome_some, if_pos rfl] at hentered
    rw [hmeasured.1, Option.isSome_some, if_pos rfl] at hopened
    exact hopened.calm hentered
  · have hm : (App.opened p).exchange.measurement = none := hnone
    have hrequest : .ofRequest (App.opened p).exchange.request = a := ha
    rw [hm, hrequest] at hentered
    rw [hnone] at hopened
    exact hopened.trans hentered

/-- The inner stages end, and the timing layer leaves what they left. -/
theorem ended (h : Sampling layer base a route p) (happ : app.layers = .timing layer :: layers)
    (hlayers : ∀ l ∈ layers, l.isTiming = false) :
    ∃ q ending, Sampled layer base a route q ∧
      app.ended p =
        (((layer.leave base.measurements.length q ending).note (.layerLeft 0 ending)).note
          (.passEnded ending), ending) := by
  obtain ⟨hat, hmeasured⟩ := h.measured.entered
  have hdeals := h.entered
  have hended := App.ended_of_timing happ p
  rw [hat] at hended
  have hroute := (Chain.edited_entered 0 layer (App.opened p)).route
  generalize Chain.entered 0 layer (App.opened p) = p₁ at hmeasured hdeals hended hroute
  obtain ⟨hkeeps, -⟩ := Chain.run_keeps 1 layers p₁
  have hquiet : p₁.service.Quiet (fun e => e.dealing? layer.registry = none)
      (Chain.run 1 layers p₁).1.service := by
    refine Chain.quiet_run_custom 1 layers p₁ ?_ (fun _ => rfl) (fun _ _ => rfl) hlayers
    rintro e (rfl | rfl) <;> rfl
  refine ⟨(Chain.run 1 layers p₁).1, _, ⟨?_, ?_, ?_⟩, hended⟩
  · exact (Chain.route_run 1 layers p₁).trans (hroute.trans h.route)
  · exact hmeasured.congr hquiet.measurements (hkeeps _ hmeasured.1)
  · refine hdeals.calm (.of_told (.of_adds (.of_quiet hquiet) fun _ he => he) ?_)
    obtain ⟨state, early, entries, -, -, heq⟩ := hquiet
    rw [heq]

/-- **The invariant carries over** to a pass after deferred work. -/
theorem again (h : Sampling layer base a route p) (happ : app.layers = .timing layer :: layers)
    (hlayers : ∀ l ∈ layers, l.isTiming = false) (hpass : app.pass p = .again p') :
    Sampling layer base a route p' := by
  obtain ⟨q, ending, hq, hended⟩ := h.ended happ hlayers
  obtain ⟨hok, work, hwork, rfl⟩ := App.pass_eq_again_iff.mp hpass
  rw [hended] at hok hwork ⊢
  cases hok
  have hpending : q.exchange.pending = some work :=
    (layer.edited_leave _ q (.returned (.ok ()))).pending.symm.trans hwork
  -- work is deferred, so the layer leaves its sample running
  rw [TimingLayer.leave_of_deferred (by simp [hpending])]
  have hleft : base.Deals layer.registry
      (((q.log .sampleLeftRunning).note (.layerLeft 0 (.returned (.ok ())))).note
        (.passEnded (.returned (.ok ())))).service [.asked (.started a) .taken] :=
    ((hq.deals.note rfl).note rfl).note rfl
  obtain ⟨hroute, hmeasurement, hmeasurements, -⟩ := Passage.runWork_keeps
    (((q.log .sampleLeftRunning).note (.layerLeft 0 (.returned (.ok ())))).note
      (.passEnded (.returned (.ok ())))) work
  have hm := hmeasurement.trans hq.measured.1
  refine ⟨hroute.trans hq.route, .inl (hq.measured.congr hmeasurements hm), ?_⟩
  rw [hm, Option.isSome_some, if_pos rfl]
  exact hleft.calm (Passage.deals_runWork _ work layer.registry)

end Sampling

/-- The measurement is closed, and nothing is asked after that. -/
theorem Sampled.close {layer : TimingLayer σ} {base : Service σ} {a : Attribution}
    {route : Option (Route σ)} {q : Passage σ} (h : Sampled layer base a route q) (x : Exchange σ)
    (hx : x.route = q.exchange.route) (failure : Option Failure) :
    ∃ elapsed b dealings,
      HandedOver elapsed b (layer.timersFor route (layer.resolve x failure)) dealings ∧
      base.Deals layer.registry (layer.close base.measurements.length x failure q.service)
        (.asked (.started a) .taken :: .resolved (layer.resolve x failure) :: dealings) := by
  obtain ⟨started, hrunning⟩ := h.measured.running?
  obtain ⟨elapsed, b, dealings, hdealings, hclose⟩ := layer.deals_close x failure hrunning
  rw [hx, h.route] at hdealings
  exact ⟨elapsed, b, dealings, hdealings, h.deals.trans hclose⟩

/-- The failure of an exchange whose last pass ended so: an error that left the chain, or else one
of deferred work that was kept. -/
def Ending.failure (ending : Ending) (x : Exchange σ) : Option Failure :=
  match ending with
  | .returned (.error e) => some (.ofError e)
  | _ => x.error.map .captured

/-- **What is asked on the last pass**, after the sample started: nothing if a crash ends the pass;
else the tags of the exchange are resolved as the chain left it, and the timers that they give on
its route are handed over. -/
def Concluded (layer : TimingLayer σ) (route : Option (Route σ)) (ended : Passage σ × Ending)
    (dealings : List Dealing) : Prop :=
  match ended.2 with
  | .crashed _ => dealings = []
  | ending =>
    let tags := layer.resolve ended.1.exchange (ending.failure ended.1.exchange)
    ∃ elapsed a handed, dealings = .resolved tags :: handed ∧
      HandedOver elapsed a (layer.timersFor route tags) handed

/-- **All that a request asks** of its registry: one sample starts on the first pass, and is closed
on the last one. -/
theorem App.deals_of_run {app : App σ} {layer : TimingLayer σ} {layers : List (Layer σ)}
    (happ : app.layers = .timing layer :: layers) (hlayers : ∀ l ∈ layers, l.isTiming = false)
    (request : Request) (service : Service σ) :
    ∃ n p q crash dealings, app.Begins request service n p ∧ app.pass p = .final q crash ∧
      app.handle request service =
        (q.service, crash.elim (.ok q.exchange.response) .error) ∧
      Concluded layer (app.begin request).route (app.ended p) dealings ∧
      service.Deals layer.registry q.service
        (.asked (.started (.ofRequest request)) .taken :: dealings) := by
  obtain ⟨last, crash, hrun⟩ := app.exists_run? request service
  obtain ⟨p, ⟨hp, n, hbegins⟩, hpass⟩ := run?_rec
    (I := fun p => Sampling layer service (.ofRequest request) (app.begin request).route p ∧
      ∃ n, app.Begins request service n p)
    ⟨.start layer app request service, 0, .first⟩
    (fun p p' ⟨hp, n, hbegins⟩ hpass => ⟨hp.again happ hlayers hpass, n + 1, hbegins.next hpass⟩)
    hrun
  obtain ⟨q, ending, hq, hended⟩ := hp.ended happ hlayers
  refine ⟨n, p, last, crash, ?_⟩
  rw [handle_of_run? hrun]
  suffices hdeals : ∃ dealings, Concluded layer (app.begin request).route (app.ended p) dealings ∧
      service.Deals layer.registry last.service
        (.asked (.started (.ofRequest request)) .taken :: dealings) by
    obtain ⟨dealings, hclosed, hdeals⟩ := hdeals
    exact ⟨dealings, hbegins, hpass, rfl, hclosed, hdeals⟩
  rcases pass_eq_final_iff.mp hpass with
    ⟨message, he, rfl, -⟩ | ⟨e, he, rfl, -⟩ | ⟨hok, hpending, rfl, -⟩
  · rw [hended] at he ⊢
    cases he
    exact ⟨[], rfl, (hq.deals.note (e := .layerLeft 0 (.crashed message)) rfl).note
      (e := .passEnded (.crashed message)) rfl⟩
  -- an error left the chain: the layer closed its measurement before the error was answered
  · rw [hended] at he ⊢
    cases he
    obtain ⟨elapsed, b, dealings, hdealings, hclosed⟩ :=
      hq.close q.exchange.failStatus rfl (some (.ofError e))
    have hleft := (hclosed.note (e := .layerLeft 0 (.returned (.error e))) rfl).note
      (e := .passEnded (.returned (.error e))) rfl
    refine ⟨_, ⟨elapsed, b, dealings, rfl, hdealings⟩, hleft.calm ?_⟩
    exact Passage.deals_answerError
      (((layer.leave service.measurements.length q (.returned (.error e))).note _).note _) e
      layer.registry
  · rw [hended] at hok hpending ⊢
    cases hok
    have hq' : q.exchange.pending = none :=
      (layer.edited_leave _ q (.returned (.ok ()))).pending.symm.trans hpending
    obtain ⟨elapsed, b, dealings, hdealings, hclosed⟩ :=
      hq.close q.exchange rfl (q.exchange.error.map .captured)
    rw [TimingLayer.leave_of_finished hq']
    refine ⟨_, ⟨elapsed, b, dealings, rfl, hdealings⟩, ?_⟩
    exact (hclosed.note (e := .layerLeft 0 (.returned (.ok ()))) rfl).note
      (e := .passEnded (.returned (.ok ()))) rfl

/-- **All that a request asks** of its registry, if it is answered: one sample starts; when the
exchange has finished, its tags are resolved, and the timers that they give on its route are handed
over. -/
theorem App.deals_of_handled {app : App σ} {layer : TimingLayer σ} {layers : List (Layer σ)}
    {request : Request} {service service' : Service σ} {response : Response}
    (happ : app.layers = .timing layer :: layers) (hlayers : ∀ l ∈ layers, l.isTiming = false)
    (h : app.handle request service = (service', .ok response)) :
    ∃ tags elapsed a dealings,
      HandedOver elapsed a (layer.timersFor (app.begin request).route tags) dealings ∧
      service.Deals layer.registry service'
        (.asked (.started (.ofRequest request)) .taken :: .resolved tags :: dealings) := by
  obtain ⟨n, p, q, crash, dealings, -, hpass, hhandle, hclosed, hdeals⟩ :=
    deals_of_run happ hlayers request service
  rw [h] at hhandle
  cases crash with
  | some message => cases hhandle
  | none =>
    cases hhandle
    rcases pass_eq_final_iff.mp hpass with ⟨_, -, -, hcrash⟩ | ⟨e, he, -⟩ | ⟨hok, -⟩
    · cases hcrash
    · rw [Concluded, he] at hclosed
      obtain ⟨elapsed, a, handed, rfl, hhanded⟩ := hclosed
      exact ⟨_, elapsed, a, handed, hhanded, hdeals⟩
    · rw [Concluded, hok] at hclosed
      obtain ⟨elapsed, a, handed, rfl, hhanded⟩ := hclosed
      exact ⟨_, elapsed, a, handed, hhanded, hdeals⟩

end TimedHttp
