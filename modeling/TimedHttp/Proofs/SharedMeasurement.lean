import TimedHttp.Proofs.Dealings
import TimedHttp.Proofs.MeasuredOnce
import TimedHttp.Proofs.OpenSamples

/-!
# One measurement for all timing layers

All timing layers of a chain share the one measurement of an exchange. The outermost of them starts
it, so it is the registry of that layer which its sample is recorded into. Whichever layer closes
the measurement resolves the tags and chooses the timers, by its own settings. So what is recorded
by the settings of one layer is recorded into the registry of another one, unless the two registries
are the same.

## Main definitions

* `RecordedBy` — what the journal tells about a measurement that was recorded
* `Passage.Traced` — the invariant: where the samples that run come from

## Main statements

* `TimingLayer.recorded_close`, `Passage.Records.leave` — what a timing layer records
* `Chain.traced_run` — a pass keeps the invariant
* `App.recorded_into_outermost` — what is recorded for a request, and where
-/

namespace TimedHttp

variable {σ : Type}

/-! ## What the journal tells about a measurement that was recorded -/

namespace Entry

/-- The position of a layer that is left. -/
def left? : Entry → Option Nat
  | layerLeft position _ => some position
  | _ => none

/-- The registry and the timer of a measurement that was recorded. -/
def recording? : Entry → Option (Nat × Timer)
  | recorded registry timer _ _ _ => some (registry, timer)
  | _ => none

theorem recording?_of_not_isClosing {e : Entry} (h : ¬ e.IsClosing) : e.recording? = none := by
  cases e with
  | recorded registry timer elapsed a verdict => exact absurd trivial h
  | _ => rfl

theorem recording?_of_isEndEntry {e : Entry} (h : Chain.IsEndEntry e) : e.recording? = none := by
  obtain rfl | rfl := h <;> rfl

end Entry

/-- **Recorded by a layer**: with these entries before and after, the timer was recorded into the
registry when a timing layer at some position was left. The registry is of the given kind; the timer
is one of the layer for an exchange on the given route, with the tags that were resolved last. -/
def RecordedBy (layers : List (Layer σ)) (route : Option (Route σ)) (into : Nat → Prop)
    (before after : List Entry) (registry : Nat) (timer : Timer) : Prop :=
  into registry ∧
    ∃ position layer x outcome, layers[position]? = some (.timing layer) ∧
      after.findSome? Entry.left? = some position ∧ x.route = route ∧
      before.reverse.findSome? Entry.resolved? = some (outcome, layer.tags x route outcome) ∧
      timer ∈ layer.timersFor route (layer.tags x route outcome)

/-- More entries may stand before and after. -/
theorem RecordedBy.among {layers : List (Layer σ)} {route : Option (Route σ)} {into : Nat → Prop}
    {before after : List Entry} {registry : Nat} {timer : Timer}
    (h : RecordedBy layers route into before after registry timer) (earlier later : List Entry) :
    RecordedBy layers route into (earlier ++ before) (after ++ later) registry timer := by
  obtain ⟨hinto, position, layer, x, outcome, hlayer, hleft, hroute, hresolved, htimer⟩ := h
  refine ⟨hinto, position, layer, x, outcome, hlayer, ?_, hroute, ?_, htimer⟩
  · rw [List.findSome?_append, hleft]
    rfl
  · rw [List.reverse_append, List.findSome?_append, hresolved]
    rfl

/-- All that the entries tell to be recorded was recorded so. -/
def AllRecordedBy (layers : List (Layer σ)) (route : Option (Route σ)) (into : Nat → Prop)
    (entries : List Entry) : Prop :=
  ∀ before e after registry timer, entries = before ++ e :: after →
    e.recording? = some (registry, timer) → RecordedBy layers route into before after registry timer

namespace AllRecordedBy

variable {layers : List (Layer σ)} {route : Option (Route σ)} {into : Nat → Prop}
  {entries more : List Entry}

theorem of_none (h : ∀ e ∈ entries, e.recording? = none) :
    AllRecordedBy layers route into entries := by
  intro before e after registry timer hsplit he
  rw [h e (by simp [hsplit])] at he
  cases he

theorem append (h : AllRecordedBy layers route into entries)
    (h' : AllRecordedBy layers route into more) :
    AllRecordedBy layers route into (entries ++ more) := by
  intro before e after registry timer hsplit he
  obtain ⟨between, rfl, hmore⟩ | ⟨between, rfl, hmore⟩ := List.append_eq_append_iff.mp hsplit
  · have hrecorded := (h' between e after registry timer hmore he).among entries []
    rwa [List.append_nil] at hrecorded
  · cases between with
    | nil =>
      have hrecorded := (h' [] e after registry timer hmore.symm he).among (before ++ []) []
      rwa [List.append_nil, List.append_nil, List.append_nil] at hrecorded
    | cons e' between =>
      obtain ⟨rfl, rfl⟩ := List.cons.inj hmore
      exact (h before e between registry timer rfl he).among [] more

/-- **The end of a measurement**: the tags are resolved, some timers of the layer are recorded with
them, and the layer is left. -/
theorem closing {position : Nat} {layer : TimingLayer σ} {x : Exchange σ} {outcome : Outcome}
    {within : List Entry} {ending : Ending} (hlayer : layers[position]? = some (.timing layer))
    (hroute : x.route = route)
    (hwithin : ∀ e ∈ within, e.resolved? = none ∧ e.left? = none ∧
      ∀ registry timer, e.recording? = some (registry, timer) →
        into registry ∧ timer ∈ layer.timersFor route (layer.tags x route outcome)) :
    AllRecordedBy layers route into
      (.tagsResolved outcome (layer.tags x route outcome) ::
        (within ++ [.layerLeft position ending])) := by
  intro before e after registry timer hsplit he
  cases before with
  | nil =>
    rw [← (List.cons.inj hsplit).1] at he
    cases he
  | cons first before =>
    obtain ⟨rfl, hrest⟩ := List.cons.inj hsplit
    have hnot : e ≠ .layerLeft position ending := by
      rintro rfl
      cases he
    -- what was recorded stands before the entry of the layer that is left
    obtain ⟨later, rfl, rfl⟩ : ∃ later, within = before ++ e :: later ∧
        after = later ++ [.layerLeft position ending] := by
      obtain ⟨between, -, hlast⟩ | ⟨between, rfl, hlast⟩ := List.append_eq_append_iff.mp hrest
      · have hmem : e ∈ [Entry.layerLeft position ending] := by simp [hlast]
        exact absurd (List.mem_singleton.mp hmem) hnot
      · cases between with
        | nil => exact absurd (List.cons.inj hlast).1 hnot
        | cons e' later =>
          obtain ⟨rfl, rfl⟩ := List.cons.inj hlast
          exact ⟨later, rfl, rfl⟩
    obtain ⟨hinto, htimer⟩ := (hwithin e (by simp)).2.2 registry timer he
    refine ⟨hinto, position, layer, x, outcome, hlayer, ?_, hroute, ?_, htimer⟩
    · have hnone : later.findSome? Entry.left? = none :=
        List.findSome?_eq_none_iff.mpr fun e he => (hwithin e (by simp [he])).2.1
      rw [List.findSome?_append, hnone]
      rfl
    · have hnone : before.reverse.findSome? Entry.resolved? = none :=
        List.findSome?_eq_none_iff.mpr fun e he =>
          (hwithin e (by simp [List.mem_reverse.mp he])).1
      rw [List.reverse_cons, List.findSome?_append, hnone]
      rfl

end AllRecordedBy

/-! ## What a timing layer records -/

theorem HandedOver.mem {elapsed elapsed' : Duration} {a b : Attribution} {timers : List Timer}
    {dealings : List Dealing} {timer : Timer} {verdict : Verdict}
    (h : HandedOver elapsed a timers dealings)
    (hmem : .asked (.recorded timer elapsed' b) verdict ∈ dealings) : timer ∈ timers := by
  induction h with
  | nil => cases hmem
  | crash =>
    cases List.mem_singleton.mp hmem
    exact List.mem_cons_self
  | next _ _ ih =>
    obtain hmem | hmem := List.mem_cons.mp hmem
    · cases hmem
      exact List.mem_cons_self
    · exact List.mem_cons_of_mem _ (ih hmem)

namespace TimingLayer

/-- Without declarations on the route, timers have the metric name of the layer. -/
theorem name_of_mem_timersFor {layer : TimingLayer σ} {route : Option (Route σ)}
    {tags : Except String Tags} {timer : Timer}
    (hroute : (route.map Route.declarations).getD [] = [])
    (h : timer ∈ layer.timersFor route tags) : timer.name = layer.metric := by
  cases tags with
  | error _ => cases h
  | ok tags =>
    simp only [timersFor, timersOf, hroute, if_true] at h
    split at h
    · rw [List.mem_singleton.mp h]
      rfl
    · cases h

/-- **A running measurement is closed**: the tags are resolved, and timers of the layer are recorded
into the registry of the sample. -/
theorem recorded_close (layer : TimingLayer σ) {m : Nat} (x : Exchange σ)
    (failure : Option Failure) {s : Service σ} {sample : Sample} {a : Attribution}
    (h : s.running? m = some (sample, a)) :
    let outcome := Outcome.classify x.status failure
    ∃ within, (layer.close m x failure s).journal =
        s.journal ++ .tagsResolved outcome (layer.tags x x.route outcome) :: within ∧
      ∀ e ∈ within, e.resolved? = none ∧ e.left? = none ∧
        ∀ registry timer, e.recording? = some (registry, timer) → registry = sample.registry ∧
          timer ∈ layer.timersFor x.route (layer.tags x x.route outcome) := by
  intro outcome
  obtain ⟨registries, warnings, elapsed, entries, stopped, -, hentries, -, hclose⟩ :=
    layer.close_eq x failure h
  have hjournal := congrArg Service.journal hclose
  refine ⟨_, hjournal, ?_⟩
  -- the dealings with the registry are the same entries, and tell the timers
  obtain ⟨elapsed', b, dealings, hhanded, ⟨entries', hjournal', hdealings⟩, -⟩ :=
    layer.deals_close x failure h
  have hsame := List.append_cancel_left (hjournal'.symm.trans hjournal)
  rw [hsame, List.filterMap_cons] at hdealings
  obtain ⟨-, hread⟩ := List.cons.inj hdealings
  intro e he
  have hlogged : ∀ event, (Entry.logged event).resolved? = none ∧
      (Entry.logged event).left? = none ∧ ∀ registry timer,
        (Entry.logged event).recording? = some (registry, timer) → registry = sample.registry ∧
          timer ∈ layer.timersFor x.route (layer.tags x x.route outcome) :=
    fun event => ⟨rfl, rfl, fun _ _ => nofun⟩
  have hmem := he
  simp only [List.mem_append, List.mem_cons, List.mem_map, List.not_mem_nil, or_false] at hmem
  obtain ⟨event, -, rfl⟩ | rfl | hmem | rfl := hmem
  · exact hlogged event
  · exact ⟨rfl, rfl, fun _ _ => nofun⟩
  · obtain ⟨timer, rfl⟩ | ⟨timer, verdict, rfl⟩ := hentries e hmem
    · exact hlogged _
    · refine ⟨rfl, rfl, fun registry timer' hrecording => ?_⟩
      cases hrecording
      exact ⟨rfl, hhanded.mem (hread ▸ List.mem_filterMap.mpr ⟨_, he, if_pos rfl⟩)⟩
  · exact hlogged _

end TimingLayer

/-- **No sample is started** between the two services: what runs has run before. -/
def Service.StartsNone (s t : Service σ) : Prop :=
  t.measurements.length = s.measurements.length ∧
    ∀ m sample a, t.running? m = some (sample, a) → s.running? m = some (sample, a)

namespace Service.StartsNone

theorem of_measurements {s t : Service σ} (h : t.measurements = s.measurements) :
    s.StartsNone t :=
  ⟨congrArg List.length h, fun m _ _ hm => (running?_congr h m).symm.trans hm⟩

/-- One measurement may have stopped. -/
theorem of_set {s t : Service σ} {m : Nat} {a : Attribution}
    (h : t.measurements = s.measurements.set m { sample := none, attribution := a }) :
    s.StartsNone t := by
  refine ⟨(congrArg List.length h).trans List.length_set, fun n sample b hn => ?_⟩
  rw [running?_eq_some_iff] at hn ⊢
  rw [h] at hn
  by_cases hmn : m = n
  · subst hmn
    rw [List.getElem?_set] at hn
    split at hn
    · split at hn <;> cases hn
    · exact hn
  · rwa [List.getElem?_set_ne hmn] at hn

end Service.StartsNone

theorem TimingLayer.startsNone_close (layer : TimingLayer σ) (m : Nat) (x : Exchange σ)
    (failure : Option Failure) (s : Service σ) : s.StartsNone (layer.close m x failure s) := by
  cases hs : s.running? m with
  | none =>
    rw [close_of_stopped hs]
    exact .of_measurements rfl
  | some running =>
    obtain ⟨registries, warnings, elapsed, entries, stopped, -, -, -, hclose⟩ :=
      layer.close_eq x failure (hs.trans rfl : s.running? m = some (running.1, running.2))
    rw [hclose]
    exact .of_set rfl

theorem Service.startsNone_abandon (s : Service σ) (m : Nat) : s.StartsNone (s.abandon m) := by
  cases hs : s.running? m with
  | none =>
    rw [abandon_of_stopped hs]
    exact .of_measurements rfl
  | some running =>
    rw [abandon_eq (hs.trans rfl : s.running? m = some (running.1, running.2))]
    exact .of_set rfl

/-! ## Where the samples come from -/

def Layer.timing? : Layer σ → Option (TimingLayer σ)
  | timing layer => some layer
  | custom _ => none

/-- The outermost timing layer. -/
def App.outermost? (app : App σ) : Option (TimingLayer σ) := app.layers.findSome? Layer.timing?

/-- **Where samples come from**: a measurement that runs was started in the registry of the
outermost timing layer, or is one that ran when the request came in. Unless a middleware attaches
one, the exchange has no measurement from before. -/
structure Passage.Traced (app : App σ) (base : Service σ) (p : Passage σ) : Prop where
  grown : base.measurements.length ≤ p.service.measurements.length
  running : ∀ m sample a, p.service.running? m = some (sample, a) →
    (∃ outer, app.outermost? = some outer ∧ sample.registry = outer.registry) ∨
      (m < base.measurements.length ∧ base.running? m = some (sample, a))
  own : (∀ layer ∈ app.layers, layer.NeverAttaches) →
    ∀ m, p.exchange.measurement = some m → base.measurements.length ≤ m

namespace Passage.Traced

variable {app : App σ} {base : Service σ} {p q : Passage σ}

theorem of_startsNone (h : p.Traced app base) (hs : p.service.StartsNone q.service)
    (hx : q.exchange.measurement = p.exchange.measurement) : q.Traced app base := by
  obtain ⟨hlength, hrunning⟩ := hs
  refine ⟨hlength ▸ h.grown, fun m sample a hm => h.running m sample a (hrunning m sample a hm), ?_⟩
  rw [hx]
  exact h.own

theorem note (h : p.Traced app base) (entry : Entry) : (p.note entry).Traced app base :=
  ⟨h.grown, h.running, h.own⟩

/-- A turn of a middleware, which may attach a measurement. -/
theorem take {α : Type} (h : p.Traced app base) {turn : Turn σ α}
    (hturn : (∀ layer ∈ app.layers, layer.NeverAttaches) → turn.NeverAttaches) :
    (p.take turn).Traced app base := by
  refine ⟨h.grown, h.running, fun hnever m hm => h.own hnever m ?_⟩
  rwa [(hturn hnever).measurement_take] at hm

/-- The timing layer that starts the measurement is the outermost one. -/
theorem enter (h : p.Traced app base) (position : Nat) {layer : TimingLayer σ}
    (hfirst : p.exchange.measurement = none → app.outermost? = some layer) :
    (Chain.entered position layer p).Traced app base := by
  cases hm : p.exchange.measurement with
  | some m =>
    rw [Chain.entered_of_some _ _ hm]
    exact ⟨h.grown, h.running, h.own⟩
  | none =>
    obtain ⟨registries, events, -, -, heq⟩ := Chain.entered_of_none position layer hm
    rw [heq]
    refine ⟨?_, ?_, ?_⟩
    · show _ ≤ (p.service.measurements ++ [_]).length
      rw [List.length_append]
      exact Nat.le_add_right_of_le h.grown
    · intro n sample a hn
      rw [Service.running?_eq_some_iff] at hn
      by_cases hlt : n < p.service.measurements.length
      · rw [List.getElem?_append_left hlt] at hn
        exact h.running n sample a (Service.running?_eq_some_iff.mpr hn)
      · rw [List.getElem?_append_right (Nat.le_of_not_lt hlt)] at hn
        cases List.mem_singleton.mp (List.mem_of_getElem? hn)
        exact .inl ⟨layer, hfirst hm, rfl⟩
    · intro hnever n hn
      cases hn
      exact h.grown

end Passage.Traced

/-- **Where measurements are recorded**: in the registry of the outermost timing layer, or, if some
middleware attaches one, in that of a sample that ran when the request came in. -/
def App.RecordsInto (app : App σ) (base : Service σ) (registry : Nat) : Prop :=
  (∃ outer, app.outermost? = some outer ∧ registry = outer.registry) ∨
    (¬ ∀ layer ∈ app.layers, layer.NeverAttaches) ∧
      ∃ m sample a, base.running? m = some (sample, a) ∧ registry = sample.registry

theorem Passage.Traced.recordsInto {app : App σ} {base : Service σ} {p : Passage σ}
    (h : p.Traced app base) {m : Nat} (hm : p.exchange.measurement = some m) {sample : Sample}
    {a : Attribution} (hrunning : p.service.running? m = some (sample, a)) :
    app.RecordsInto base sample.registry := by
  obtain houter | ⟨hlt, hbase⟩ := h.running m sample a hrunning
  · exact .inl houter
  · refine .inr ⟨fun hnever => ?_, m, sample, a, hbase, rfl⟩
    exact Nat.not_le_of_lt hlt (h.own hnever m hm)

/-- **Recorded since** the service was so: the invariant holds, and what the journal gained tells
what was recorded, by which layer and where. -/
def Passage.Records (app : App σ) (base : Service σ) (route : Option (Route σ)) (s : Service σ)
    (q : Passage σ) : Prop :=
  q.Traced app base ∧ ∃ entries, q.service.journal = s.journal ++ entries ∧
    AllRecordedBy app.layers route (app.RecordsInto base) entries

namespace Passage.Records

variable {app : App σ} {base s : Service σ} {route : Option (Route σ)} {p q : Passage σ}

theorem trans (hp : p.Records app base route s) (hq : q.Records app base route p.service) :
    q.Records app base route s := by
  obtain ⟨-, entries, hjournal, hrecorded⟩ := hp
  obtain ⟨htraced, more, hmore, hrecorded'⟩ := hq
  refine ⟨htraced, entries ++ more, ?_, hrecorded.append hrecorded'⟩
  rw [hmore, hjournal, List.append_assoc]

/-- Nothing is recorded by the step. -/
theorem of_adds (htraced : q.Traced app base)
    (h : p.service.Adds (fun e => e.recording? = none) q.service) :
    q.Records app base route p.service := by
  obtain ⟨entries, hentries, hjournal⟩ := h
  exact ⟨htraced, entries, hjournal, .of_none hentries⟩

/-- A timing layer is left, and perhaps it closes the measurement. -/
theorem leave {position m : Nat} {layer : TimingLayer σ} (h : p.Traced app base)
    (hm : p.exchange.measurement = some m)
    (hlayer : app.layers[position]? = some (.timing layer)) (hroute : p.exchange.route = route)
    (ending : Ending) :
    ((layer.leave m p ending).note (.layerLeft position ending)).Records app base route
      p.service := by
  have hclose : ∀ (x : Exchange σ) (failure : Option Failure), x.route = route →
      x.measurement = p.exchange.measurement →
      (Passage.note { service := layer.close m x failure p.service, exchange := x }
        (.layerLeft position ending)).Records app base route p.service := by
    intro x failure hx hattached
    refine ⟨h.of_startsNone (layer.startsNone_close m x failure p.service) hattached, ?_⟩
    cases hs : p.service.running? m with
    | none =>
      rw [TimingLayer.close_of_stopped hs]
      refine ⟨[.logged .sampleAlreadyStopped, .layerLeft position ending], ?_, .of_none ?_⟩
      · simp [Passage.note, Service.log, Service.note]
      · simp [Entry.recording?]
    | some running =>
      obtain ⟨sample, a⟩ := running
      obtain ⟨within, hjournal, hwithin⟩ := layer.recorded_close x failure hs
      have hrecorded : AllRecordedBy app.layers route (app.RecordsInto base)
          (.tagsResolved (Outcome.classify x.status failure)
            (layer.tags x route (Outcome.classify x.status failure)) ::
              (within ++ [.layerLeft position ending])) := by
        refine .closing hlayer hx fun e he => ?_
        obtain ⟨hresolved, hleft, hrecording⟩ := hwithin e he
        refine ⟨hresolved, hleft, fun registry timer hr => ?_⟩
        obtain ⟨rfl, htimer⟩ := hrecording registry timer hr
        exact ⟨h.recordsInto hm hs, hx ▸ htimer⟩
      refine ⟨_, ?_, hrecorded⟩
      show (layer.close m x failure p.service).journal ++ [.layerLeft position ending] = _
      rw [hjournal, hx, List.append_assoc]
      rfl
  cases ending with
  | crashed message => exact .of_adds (h.note _) (.note _ rfl)
  | returned result =>
    cases result with
    | error e => exact hclose p.exchange.failStatus (some (.ofError e)) hroute rfl
    | ok =>
      by_cases hpending : p.exchange.pending = none
      · rw [TimingLayer.leave_of_finished hpending]
        exact hclose p.exchange (p.exchange.error.map .captured) hroute rfl
      · rw [TimingLayer.leave_of_deferred hpending]
        refine .of_adds ((h.note _).note _)
          ⟨[.logged .sampleLeftRunning, .layerLeft position (.returned (.ok ()))], ?_, ?_⟩
        · simp [Entry.recording?]
        · simp [Passage.log, Passage.note, Service.log, Service.note]

end Passage.Records

/-! ## Over a pass -/

namespace Chain

variable {app : App σ} {base : Service σ} {route : Option (Route σ)}

/-- **A pass keeps the invariant.** As long as the exchange has no measurement, the timing layers
that it has still to enter are all there are. -/
theorem traced_run (position : Nat) (layers : List (Layer σ)) {p : Passage σ}
    (hlayers : ∀ i, layers[i]? = app.layers[position + i]?)
    (hfirst : p.exchange.measurement = none → layers.findSome? Layer.timing? = app.outermost?)
    (hroute : p.exchange.route = route) (h : p.Traced app base) :
    (run position layers p).1.Records app base route p.service := by
  induction layers generalizing position p with
  | nil =>
    have hquiet := (quiet_endpoint p).mono fun _ he =>
      Entry.recording?_of_isEndEntry he
    exact .of_adds (h.of_startsNone (.of_measurements hquiet.measurements) (measurement_endpoint p))
      (.of_quiet hquiet)
  | cons layer rest ih =>
    have hlayer : app.layers[position]? = some layer := (hlayers 0).symm
    have hrest : ∀ i, rest[i]? = app.layers[position + 1 + i]? := by
      intro i
      rw [Nat.add_assoc, Nat.add_comm 1 i]
      exact hlayers (i + 1)
    cases layer with
    | timing layer =>
      have hentered : (entered position layer p).Traced app base := h.enter position fun hm =>
        (hfirst hm).symm.trans rfl
      have hadds := (adds_entered_open position layer p).mono fun _ he =>
        Entry.recording?_of_not_isClosing he
      have hattached := measurement_entered position layer p
      have hinner := ih (position + 1) hrest (fun hm => nomatch hm.symm.trans hattached)
        ((edited_entered position layer p).route.trans hroute) hentered
      rw [run_timing]
      refine (Passage.Records.of_adds hentered hadds).trans (hinner.trans ?_)
      refine .leave hinner.1 ((run_keeps _ _ _).1 _ hattached) hlayer ?_ _
      rw [route_run, (edited_entered position layer p).route, hroute]
    | custom middleware =>
      have hnever : (∀ layer ∈ app.layers, layer.NeverAttaches) → middleware.NeverAttaches :=
        fun hall => hall _ (List.mem_of_getElem? hlayer)
      have hturn : (firstTurn position middleware p).Records app base route p.service :=
        .of_adds ((h.note _).take fun hall => (hnever hall p.sight).1)
          (.of_quiet (quiet_firstTurn position middleware p rfl))
      cases hnext : (middleware p.sight).next with
      | stop ending =>
        rw [run_stop hnext]
        exact hturn.trans (.of_adds (hturn.1.note _) (.note _ rfl))
      | proceed after =>
        have hin := edited_firstTurn position middleware p
        have hinner := ih (position + 1) hrest (fun hm => hfirst ?_) (hin.route.trans hroute)
          hturn.1
        · rw [run_proceed hnext]
          refine hturn.trans (hinner.trans (.of_adds ((hinner.1.take ?_).note _) ?_))
          · exact fun hall => (hnever hall p.sight).2 after hnext _ _
          · exact .of_quiet ((Passage.quiet_take _ _).trans (.note _ rfl))
        · cases hp : p.exchange.measurement with
          | none => rfl
          | some m => exact nomatch hm.symm.trans (hin.measurement hp)

end Chain

/-! ## Over all passes -/

/-- **The invariant between passes**: all measurements of the request are accounted for. -/
structure Passage.Accounted (app : App σ) (base : Service σ) (route : Option (Route σ))
    (p : Passage σ) : Prop where
  records : p.Records app base route base
  routed : p.exchange.route = route

namespace Passage.Accounted

variable {app : App σ} {base : Service σ} {route : Option (Route σ)} {p q : Passage σ}

theorem start (app : App σ) (request : Request) (service : Service σ) :
    (app.start request service).Accounted app service (app.begin request).route := by
  obtain ⟨params, route, hx⟩ := app.begin_fresh request
  refine ⟨⟨⟨Nat.le_refl _, ?_, ?_⟩, [], (List.append_nil _).symm, .of_none fun _ => nofun⟩, rfl⟩
  · intro m sample a hm
    have hlt := (List.getElem?_eq_some_iff.mp (Service.running?_eq_some_iff.mp hm)).1
    exact .inr ⟨hlt, hm⟩
  · intro _ m hm
    rw [App.start, hx] at hm
    cases hm

/-- Steps outside the stages record nothing and start no sample. -/
theorem calm (h : p.Accounted app base route) (hs : p.service.StartsNone q.service)
    (hx : q.exchange.measurement = p.exchange.measurement)
    (hroute : q.exchange.route = p.exchange.route)
    (hadds : p.service.Adds (fun e => e.recording? = none) q.service) :
    q.Accounted app base route :=
  ⟨h.records.trans (.of_adds (h.records.1.of_startsNone hs hx) hadds), hroute.trans h.routed⟩

theorem ended (h : p.Accounted app base route) : (app.ended p).1.Accounted app base route := by
  have hopened : (App.opened p).Accounted app base route :=
    h.calm (.of_measurements rfl) rfl rfl (.note _ rfl)
  have hrun := Chain.traced_run 0 app.layers (fun i => by rw [Nat.zero_add]) (fun _ => rfl)
    hopened.routed hopened.records.1
  have hroute := (Chain.route_run 0 app.layers _).trans hopened.routed
  have haccounted : Accounted app base route (Chain.run 0 app.layers (App.opened p)).1 :=
    ⟨hopened.records.trans hrun, hroute⟩
  exact haccounted.calm (.of_measurements rfl) rfl rfl (.note _ rfl)

theorem runWork (h : p.Accounted app base route) (work : Work σ) :
    (p.runWork work).Accounted app base route := by
  obtain ⟨hroute, hmeasurement, hmeasurements, -⟩ := p.runWork_keeps work
  refine h.calm (.of_measurements hmeasurements) hmeasurement hroute ?_
  obtain ⟨reply, -, -, heq⟩ | ⟨e, status, -, heq⟩ := p.runWork_cases work
  · rw [heq]
    exact ⟨_, by simp [Entry.recording?], rfl⟩
  · rw [heq]
    exact ⟨_, by simp [Entry.recording?], rfl⟩

theorem answerError (h : p.Accounted app base route) (e : ChainError) :
    (p.answerError e).Accounted app base route := by
  obtain ⟨dropped, -, hstopped⟩ := p.answerError_eq e
  obtain ⟨readings, measurements, heq, -⟩ := p.answerError_eq_aftermath e
  refine h.calm ?_ (p.measurement_answerError e) (by rw [heq]) ?_
  · rw [hstopped]
    cases p.exchange.measurement with
    | none => exact .of_measurements rfl
    | some m => exact Service.startsNone_abandon _ m
  · rw [heq]
    refine ⟨p.aftermath e, fun entry hentry => ?_, rfl⟩
    obtain ⟨event, rfl⟩ | ⟨registry, rfl⟩ := eq_of_mem_aftermath hentry <;> rfl

end Passage.Accounted

namespace App

/-- All measurements are accounted for when the request ends. -/
theorem accounted_of_run? {app : App σ} {request : Request} {service : Service σ} {q : Passage σ}
    {crash : Option String} (h : app.run? request service = some (q, crash)) :
    q.Accounted app service (app.begin request).route := by
  obtain ⟨p, hp, hpass⟩ := run?_rec (Passage.Accounted.start app request service)
    (fun p p' hp hpass => by
      obtain ⟨-, work, -, rfl⟩ := pass_eq_again_iff.mp hpass
      exact hp.ended.runWork work) h
  obtain ⟨message, -, rfl, -⟩ | ⟨e, -, rfl, -⟩ | ⟨-, -, rfl, -⟩ := pass_eq_final_iff.mp hpass
  · exact hp.ended
  · exact hp.ended.answerError e
  · exact hp.ended

/-- Without middlewares that attach measurements, one registry is recorded into. -/
theorem RecordsInto.eq_of_neverAttaches {app : App σ} {base : Service σ} {registry : Nat}
    (h : app.RecordsInto base registry) (hnever : ∀ layer ∈ app.layers, layer.NeverAttaches)
    {outer : TimingLayer σ} (houter : app.outermost? = some outer) : registry = outer.registry := by
  obtain ⟨outer', houter', heq⟩ | ⟨hattaches, -⟩ := h
  · cases houter.symm.trans houter'
    exact heq
  · exact absurd hnever hattaches

/-- **What is recorded for a request, and where.** For each measurement that is recorded there is a
timing layer, the next that is left: its provider gave the tags that were resolved last, and the
timer is one by its metric name, its setting and these tags. But the registry is that of the
outermost timing layer, or, if a middleware attached one, that of a sample that ran before. So if no
middleware attaches one, the registry is the layer's own exactly if it is the outermost's too. -/
theorem recorded_into_outermost (app : App σ) (request : Request) (service : Service σ) :
    ∃ entries, (app.handle request service).1.journal = service.journal ++ entries ∧
      ∀ before registry timer elapsed a verdict after,
        entries = before ++ .recorded registry timer elapsed a verdict :: after →
        ∃ position layer x outcome, app.layers[position]? = some (.timing layer) ∧
          after.findSome? Entry.left? = some position ∧ x.route = (app.begin request).route ∧
          before.reverse.findSome? Entry.resolved? =
            some (outcome, layer.tags x (app.begin request).route outcome) ∧
          timer ∈ layer.timersFor (app.begin request).route
            (layer.tags x (app.begin request).route outcome) ∧
          app.RecordsInto service registry ∧
          ((∀ layer ∈ app.layers, layer.NeverAttaches) →
            ∀ outer, app.outermost? = some outer →
              registry = outer.registry ∧
                (registry = layer.registry ↔ layer.registry = outer.registry)) := by
  obtain ⟨q, crash, hrun⟩ := app.exists_run? request service
  obtain ⟨⟨-, entries, hjournal, hrecorded⟩, -⟩ := accounted_of_run? hrun
  rw [handle_of_run? hrun]
  refine ⟨entries, hjournal, fun before registry timer elapsed a verdict after hsplit => ?_⟩
  obtain ⟨hinto, position, layer, x, outcome, hlayer, hleft, hroute, hresolved, htimer⟩ :=
    hrecorded before _ after registry timer hsplit rfl
  refine ⟨position, layer, x, outcome, hlayer, hleft, hroute, hresolved, htimer, hinto, ?_⟩
  intro hnever outer houter
  have heq : registry = outer.registry := hinto.eq_of_neverAttaches hnever houter
  refine ⟨heq, ?_⟩
  rw [heq]
  exact eq_comm

end App

/-! ## Two layers, two registries -/

namespace Exports

/-- Two timing layers, each with a registry and a metric name. -/
def doubled : App Unit :=
  { routes := routes (.answer (.bare .created))
    layers := [.timing { registry := 0, metric := "outer" },
      .timing { registry := 1, metric := "inner" }] }

/-- Two registries that keep summaries. -/
def stocked : Service Unit := { state := (), registries := [.memory {}, .memory {}] }

/-- A measurement with the metric name of the inner layer is recorded, into the registry of the
outer one. -/
theorem inner_recorded : ∃ timer elapsed a verdict,
    .recorded 0 timer elapsed a verdict ∈ (doubled.handle request stocked).1.journal ∧
      timer.name = "inner" := by
  have hsome : (doubled.handle request stocked).1.journal.any (fun e =>
      e.recording?.any fun (registry, timer) => registry = 0 ∧ timer.name = "inner") = true := by
    decide
  obtain ⟨e, he, hany⟩ := List.any_eq_true.mp hsome
  cases e with
  | recorded registry timer elapsed a verdict =>
    obtain ⟨rfl, hname⟩ := of_decide_eq_true hany
    exact ⟨timer, elapsed, a, verdict, he, hname⟩
  | _ => cases hany

/-- All that is recorded goes into the registry of the outer layer, also the timer of the inner. -/
theorem recorded_in_outer_registry : ∃ entries,
    (doubled.handle request stocked).1.journal = stocked.journal ++ entries ∧
      (∃ timer elapsed a verdict, .recorded 0 timer elapsed a verdict ∈ entries ∧
        timer.name = "inner") ∧
      ∀ registry timer elapsed a verdict,
        .recorded registry timer elapsed a verdict ∈ entries → registry = 0 := by
  obtain ⟨entries, hjournal, hrecorded⟩ := doubled.recorded_into_outermost request stocked
  have hinner := inner_recorded
  rw [hjournal] at hinner
  refine ⟨entries, hjournal, hinner, fun registry timer elapsed a verdict hmem => ?_⟩
  obtain ⟨before, after, hsplit⟩ := List.append_of_mem hmem
  obtain ⟨position, layer, x, outcome, -, -, -, -, -, -, hregistry⟩ :=
    hrecorded before registry timer elapsed a verdict after hsplit
  have hnever : ∀ layer ∈ doubled.layers, layer.NeverAttaches := by
    simp [doubled, Layer.NeverAttaches]
  exact (hregistry hnever _ rfl).1

/-- **Recorded elsewhere**: no layer that measures into the registry has such a timer. -/
theorem recorded_elsewhere :
    ¬ ∀ (app : App Unit) (request : Request) (service : Service Unit) registry timer elapsed a
        verdict, service.journal = [] →
      .recorded registry timer elapsed a verdict ∈ (app.handle request service).1.journal →
      ∃ layer tags, .timing layer ∈ app.layers ∧ layer.registry = registry ∧
        timer ∈ layer.timersFor (app.begin request).route tags := by
  intro hown
  obtain ⟨timer, elapsed, a, verdict, hmem, hname⟩ := inner_recorded
  obtain ⟨layer, tags, hlayer, hregistry, htimer⟩ :=
    hown doubled request stocked 0 timer elapsed a verdict rfl hmem
  have hmetric := TimingLayer.name_of_mem_timersFor rfl htimer
  simp only [doubled, List.mem_cons, Layer.timing.injEq, List.not_mem_nil, or_false] at hlayer
  obtain rfl | rfl := hlayer
  · exact absurd (hname.symm.trans hmetric) (by decide)
  · exact absurd hregistry (by decide)

end Exports

end TimedHttp
