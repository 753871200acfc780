import TimedHttp.Proofs.Calls

/-!
# One measurement for each exchange

However often a request passes through the chain, and however many timing layers it meets there, it
is measured once: the first timing layer that it enters starts a sample, all later ones find the
measurement of that sample, and the sample is taken out of it at most once, to be recorded or to be
dropped. Middlewares are arbitrary, except that none attaches a measurement of its own.

## Main statements

* `Life` — what an exchange leaves in the journal about its sample, in order
* `Chain.measuredOnce_run`, `App.measuredOnce_run?` — the invariant over a pass, and over all passes
* `App.handle_measures_once` — the statement about a request handled to its end
-/

namespace TimedHttp

variable {σ : Type}

/-! ## What the journal tells about a sample -/

/-- **Mark**: what an entry tells about the sample of an exchange. -/
inductive Mark where
  | started (registry : Nat)
  /-- taken out of its measurement, to be recorded -/
  | closed
  /-- taken out of its measurement, to be dropped -/
  | dropped
  | stopped (registry : Nat)
  | recorded (registry : Nat)
  deriving DecidableEq

namespace Mark

def isStart : Mark → Bool
  | started _ => true
  | _ => false

/-- The sample is taken out of its measurement. -/
def isHandout : Mark → Bool
  | closed | dropped => true
  | _ => false

def isStop : Mark → Bool
  | stopped _ => true
  | _ => false

end Mark

namespace Entry

def mark? : Entry → Option Mark
  | sampleStarted registry _ => some (.started registry)
  | tagsResolved _ _ => some .closed
  | logged .exchangeAbandoned => some .dropped
  | sampleStopped registry => some (.stopped registry)
  | recorded registry _ _ _ _ => some (.recorded registry)
  | _ => none

/-- The position of a timing layer, and the measurement that it has at hand. -/
def measuring? : Entry → Option (Nat × Nat)
  | measuring position measurement => some (position, measurement)
  | _ => none

/-- The position of a layer that is entered, if it is one of the timing layers. -/
def entered? (timed : Nat → Bool) : Entry → Option Nat
  | layerEntered position => if timed position then some position else none
  | _ => none

/-- The entry is not about measuring. -/
def IsPlain (timed : Nat → Bool) (e : Entry) : Prop :=
  e.mark? = none ∧ e.measuring? = none ∧ e.entered? timed = none

end Entry

/-- **Life** of the measurement of an exchange, and the marks that it leaves. There is none before
the first timing layer; then it runs; then its sample was taken out, and was stopped after that. -/
inductive Life : List Measurement → List Mark → Prop
  | unmeasured : Life [] []
  | running (sample : Sample) (a : Attribution) :
      Life [{ sample := some sample, attribution := a }] [.started sample.registry]
  | closed (registry n : Nat) (a : Attribution) :
      Life [{ sample := none, attribution := a }]
        (.started registry :: .closed :: .stopped registry :: List.replicate n (.recorded registry))
  | dropped (registry : Nat) (a : Attribution) :
      Life [{ sample := none, attribution := a }] [.started registry, .dropped, .stopped registry]

namespace Life

variable {own : List Measurement} {marks : List Mark}

theorem countP_isStart (h : Life own marks) : marks.countP Mark.isStart = own.length := by
  cases h <;> simp [Mark.isStart, List.countP_cons, List.countP_replicate]

theorem countP_isHandout_le (h : Life own marks) : marks.countP Mark.isHandout ≤ 1 := by
  cases h <;> simp [Mark.isHandout, List.countP_cons, List.countP_replicate]

theorem countP_isStop (h : Life own marks) :
    marks.countP Mark.isStop = marks.countP Mark.isHandout := by
  cases h <;> simp [Mark.isHandout, Mark.isStop, List.countP_cons, List.countP_replicate]

theorem length_le (h : Life own marks) : own.length ≤ 1 := by
  cases h <;> simp

end Life

/-! ## The invariant -/

/-- **One measurement** since the given service: what the journal and the measurements gained, and
what is attached to the exchange. Every timing layer that was entered had the first measurement
after those of the given service at hand. -/
structure MeasuredOnce (timed : Nat → Bool) (base : Service σ) (p : Passage σ)
    (entries : List Entry) (own : List Measurement) : Prop where
  journal : p.service.journal = base.journal ++ entries
  measurements : p.service.measurements = base.measurements ++ own
  life : Life own (entries.filterMap Entry.mark?)
  attached : p.exchange.measurement = own.head?.map fun _ => base.measurements.length
  entered : entries.filterMap (Entry.entered? timed) = [] ↔ own = []
  measuring : entries.filterMap Entry.measuring? =
    (entries.filterMap (Entry.entered? timed)).map (·, base.measurements.length)

/-- Some measurement, or none, as in `MeasuredOnce`. -/
def Passage.MeasuredOnce (timed : Nat → Bool) (base : Service σ) (p : Passage σ) : Prop :=
  ∃ entries own, TimedHttp.MeasuredOnce timed base p entries own

namespace MeasuredOnce

variable {timed : Nat → Bool} {base : Service σ} {p q : Passage σ}
  {entries : List Entry} {own : List Measurement}

/-- A step on which no timing layer is entered. -/
theorem step (h : MeasuredOnce timed base p entries own) {more : List Entry}
    {own' : List Measurement} (hjournal : q.service.journal = p.service.journal ++ more)
    (hmeasurements : q.service.measurements = base.measurements ++ own')
    (hlife : Life own' (entries.filterMap Entry.mark? ++ more.filterMap Entry.mark?))
    (hown : own' = [] ↔ own = []) (hmeasuring : more.filterMap Entry.measuring? = [])
    (hentered : more.filterMap (Entry.entered? timed) = [])
    (hx : q.exchange.measurement = p.exchange.measurement) : q.MeasuredOnce timed base := by
  refine ⟨entries ++ more, own', ?_, hmeasurements, ?_, ?_, ?_, ?_⟩
  · rw [hjournal, h.journal, List.append_assoc]
  · rw [List.filterMap_append]
    exact hlife
  · rw [hx, h.attached]
    cases own <;> cases own' <;> simp_all
  · rw [List.filterMap_append, hentered, List.append_nil, h.entered, hown]
  · rw [List.filterMap_append, List.filterMap_append, hmeasuring, hentered, List.append_nil,
      List.append_nil]
    exact h.measuring

/-- A step that leaves measurements alone. -/
theorem quiet (h : MeasuredOnce timed base p entries own)
    (hs : p.service.Quiet (Entry.IsPlain timed) q.service)
    (hx : q.exchange.measurement = p.exchange.measurement) : q.MeasuredOnce timed base := by
  obtain ⟨state, early, more, -, hmore, hs⟩ := hs
  have hmark : more.filterMap Entry.mark? = [] :=
    List.filterMap_eq_nil_iff.mpr fun e he => (hmore e he).1
  have hmeasuring : more.filterMap Entry.measuring? = [] :=
    List.filterMap_eq_nil_iff.mpr fun e he => (hmore e he).2.1
  have hentered : more.filterMap (Entry.entered? timed) = [] :=
    List.filterMap_eq_nil_iff.mpr fun e he => (hmore e he).2.2
  have hlife : Life own (entries.filterMap Entry.mark? ++ more.filterMap Entry.mark?) := by
    rw [hmark, List.append_nil]
    exact h.life
  exact h.step (congrArg Service.journal hs)
    ((congrArg Service.measurements hs).trans h.measurements) hlife .rfl hmeasuring hentered hx

/-- The measurement of an exchange runs, with only its start in the journal, or it has stopped. -/
theorem running_or_stopped (h : MeasuredOnce timed base p entries own) {m : Nat}
    (hm : p.exchange.measurement = some m) :
    (∃ sample a, m = base.measurements.length ∧
      own = [{ sample := some sample, attribution := a }] ∧
      entries.filterMap Entry.mark? = [.started sample.registry] ∧
      p.service.running? m = some (sample, a)) ∨
    p.service.running? m = none := by
  obtain ⟨-, hmeasurements, hlife, hattached, -, -⟩ := h
  generalize entries.filterMap Entry.mark? = marks at hlife ⊢
  rw [hm] at hattached
  cases hlife with
  | unmeasured => cases hattached
  | running sample a =>
    cases hattached
    refine .inl ⟨sample, a, rfl, rfl, rfl, ?_⟩
    rw [Service.running?_eq_some_iff, hmeasurements]
    simp
  | closed | dropped =>
    cases hattached
    refine .inr ?_
    simp [Service.running?, hmeasurements]

/-- The sample is taken out of the running measurement and stopped. -/
theorem stopped (h : MeasuredOnce timed base p entries own) {m : Nat} {sample : Sample}
    {a b : Attribution} {more : List Entry} (hm : m = base.measurements.length)
    (hown : own = [{ sample := some sample, attribution := a }])
    (hjournal : q.service.journal = p.service.journal ++ more)
    (hmeasurements : q.service.measurements =
      p.service.measurements.set m { sample := none, attribution := b })
    (hlife : Life [{ sample := none, attribution := b }]
      (entries.filterMap Entry.mark? ++ more.filterMap Entry.mark?))
    (hmeasuring : more.filterMap Entry.measuring? = [])
    (hentered : more.filterMap (Entry.entered? timed) = [])
    (hx : q.exchange.measurement = p.exchange.measurement) : q.MeasuredOnce timed base := by
  subst hm hown
  have hset : q.service.measurements =
      base.measurements ++ [{ sample := none, attribution := b }] := by
    rw [hmeasurements, h.measurements]
    simp
  exact h.step hjournal hset hlife (by simp) hmeasuring hentered hx

/-! ### The steps -/

/-- A registry that records leaves marks of recordings only. -/
theorem filterMap_of_isRecording (timed : Nat → Bool) {registry : Nat} {elapsed : Duration}
    {a : Attribution} {recordings : List Entry}
    (h : ∀ e ∈ recordings, e.IsRecording registry elapsed a) :
    (∃ n, recordings.filterMap Entry.mark? = List.replicate n (.recorded registry)) ∧
      recordings.filterMap Entry.measuring? = [] ∧
      recordings.filterMap (Entry.entered? timed) = [] := by
  induction recordings with
  | nil => exact ⟨⟨0, rfl⟩, rfl, rfl⟩
  | cons e recordings ih =>
    obtain ⟨⟨n, hn⟩, hmeasuring, hentered⟩ := ih fun e' he' => h e' (List.mem_cons_of_mem e he')
    rcases h e List.mem_cons_self with ⟨timer, rfl⟩ | ⟨timer, verdict, rfl⟩
    · exact ⟨⟨n, hn⟩, hmeasuring, hentered⟩
    · exact ⟨⟨n + 1, congrArg (Mark.recorded registry :: ·) hn⟩, hmeasuring, hentered⟩

@[simp]
theorem filterMap_measuring_logged (events : List Event) :
    events.filterMap (Entry.measuring? ∘ .logged) = [] := by
  simp [Entry.measuring?]

@[simp]
theorem filterMap_entered_logged (events : List Event) :
    events.filterMap (Entry.entered? timed ∘ .logged) = [] := by
  simp [Entry.entered?]

theorem filterMap_mark_logged {events : List Event}
    (h : ∀ event ∈ events, event ≠ .exchangeAbandoned) :
    events.filterMap (Entry.mark? ∘ .logged) = [] := by
  refine List.filterMap_eq_nil_iff.mpr fun event he => ?_
  have hne := h event he
  cases event <;> first | rfl | exact absurd rfl hne

/-- Nothing is told about a sample before there is one. -/
theorem unmeasured (h : MeasuredOnce timed base p entries []) :
    p.service.measurements = base.measurements ∧ entries.filterMap Entry.mark? = [] ∧
      entries.filterMap (Entry.entered? timed) = [] := by
  have hlife := h.life
  generalize entries.filterMap Entry.mark? = marks at hlife ⊢
  cases hlife
  exact ⟨h.measurements.trans (List.append_nil _), rfl, h.entered.mpr rfl⟩

/-- The first timing layer that is entered starts the measurement. -/
theorem enter_first (h : MeasuredOnce timed base p entries []) {position : Nat}
    (hp : timed position = true) (layer : TimingLayer σ) :
    (Chain.entered position layer p).MeasuredOnce timed base := by
  obtain ⟨registries, events, hevents, -, heq⟩ := Chain.entered_of_none position layer h.attached
  obtain ⟨hmeasurements, hmarks, hnone⟩ := h.unmeasured
  have hlogged : events.filterMap (Entry.mark? ∘ .logged) = [] := by
    refine filterMap_mark_logged fun event he => ?_
    rcases hevents event he with rfl | rfl <;> exact nofun
  refine ⟨entries ++ .layerEntered position ::
      .sampleStarted layer.registry (.ofRequest p.exchange.request) ::
      (events.map .logged ++ [.measuring position p.service.measurements.length]),
    [{ sample := some { registry := layer.registry, started := p.service.now }
       attribution := .ofRequest p.exchange.request }], ?_, ?_, ?_, ?_, ?_, ?_⟩
  · rw [heq, ← List.append_assoc, ← h.journal]
  · rw [heq, hmeasurements]
  · rw [List.filterMap_append, hmarks]
    simp only [List.filterMap_cons, List.filterMap_append, List.filterMap_map, Entry.mark?,
      hlogged]
    exact .running { registry := layer.registry, started := p.service.now } _
  · rw [heq, hmeasurements]
    rfl
  · simp [Entry.entered?, hp]
  · rw [List.filterMap_append, List.filterMap_append, h.measuring, hnone, hmeasurements]
    simp [List.filterMap_cons, Entry.measuring?, Entry.entered?, hp]

/-- A timing layer that is entered later finds it. -/
theorem enter_again (h : MeasuredOnce timed base p entries own) (hown : own ≠ []) {position : Nat}
    (hp : timed position = true) (layer : TimingLayer σ) :
    (Chain.entered position layer p).MeasuredOnce timed base := by
  obtain ⟨first, others, rfl⟩ := List.exists_cons_of_ne_nil hown
  rw [Chain.entered_of_some position layer h.attached]
  refine ⟨entries ++ [.layerEntered position, .measuring position base.measurements.length], _,
    ?_, h.measurements, ?_, ?_, ?_, ?_⟩
  · exact (congrArg (· ++ _) h.journal).trans (List.append_assoc _ _ _)
  · rw [List.filterMap_append]
    simpa [List.filterMap_cons, Entry.mark?] using h.life
  · exact h.attached
  · simp [Entry.entered?, hp]
  · rw [List.filterMap_append, List.filterMap_append, h.measuring]
    simp [List.filterMap_cons, Entry.measuring?, Entry.entered?, hp]

/-- **A timing layer is entered**: it starts the measurement, or finds it. -/
theorem enter (h : MeasuredOnce timed base p entries own) {position : Nat}
    (hp : timed position = true) (layer : TimingLayer σ) :
    (Chain.entered position layer p).MeasuredOnce timed base := by
  by_cases hown : own = []
  · subst hown
    exact h.enter_first hp layer
  · exact h.enter_again hown hp layer

/-- **A timing layer closes** the measurement that it has at hand. -/
theorem close (h : MeasuredOnce timed base p entries own) {m : Nat}
    (hm : p.exchange.measurement = some m) {layer : TimingLayer σ} {x : Exchange σ}
    {failure : Option Failure} (hs : q.service = layer.close m x failure p.service)
    (hx : q.exchange.measurement = p.exchange.measurement) : q.MeasuredOnce timed base := by
  rcases h.running_or_stopped hm with ⟨sample, a, hbase, hown, hmarks, hrunning⟩ | hstopped
  · obtain ⟨registries, warnings, elapsed, recordings, result, hwarnings, hrecordings, -, hclose⟩ :=
      layer.close_eq x failure hrunning
    obtain ⟨⟨n, hn⟩, hmeasuring, hentered⟩ := filterMap_of_isRecording timed hrecordings
    have hwarned : warnings.filterMap (Entry.mark? ∘ .logged) = [] := by
      refine filterMap_mark_logged fun event he => ?_
      rw [hwarnings event he]
      exact nofun
    refine h.stopped hbase hown (congrArg Service.journal (hs.trans hclose))
      (congrArg Service.measurements (hs.trans hclose)) ?_ ?_ ?_ hx
    · have hlife := Life.closed sample.registry n
        ((p.service.attributed m a).settle (TimingLayer.result x failure))
      cases result <;>
        simpa [List.filterMap_cons, Entry.mark?, TimingLayer.closing, hmarks, hwarned, hn]
          using hlife
    · simp [List.filterMap_cons, Entry.measuring?, hmeasuring]
    · simp [List.filterMap_cons, Entry.entered?, hentered]
  · refine h.quiet ?_ hx
    rw [hs, TimingLayer.close_of_stopped hstopped]
    exact .note p.service ⟨rfl, rfl, rfl⟩

/-- **A measurement is abandoned** after an error has left the chain. -/
theorem abandon (h : MeasuredOnce timed base p entries own) {m : Nat}
    (hm : p.exchange.measurement = some m) (hs : q.service = p.service.abandon m)
    (hx : q.exchange.measurement = p.exchange.measurement) : q.MeasuredOnce timed base := by
  rcases h.running_or_stopped hm with ⟨sample, a, hbase, hown, hmarks, hrunning⟩ | hstopped
  · have habandon := hs.trans (Service.abandon_eq hrunning)
    refine h.stopped hbase hown (congrArg Service.journal habandon)
      (congrArg Service.measurements habandon) ?_ ?_ ?_ hx
    · rw [hmarks]
      exact .dropped sample.registry a
    · rfl
    · rfl
  · refine h.quiet ?_ hx
    rw [hs, Service.abandon_of_stopped hstopped]
    exact .refl p.service

end MeasuredOnce

/-! ## Middlewares that attach nothing -/

def Turn.NeverAttaches {α : Type} (turn : Turn σ α) : Prop := ∀ m, .attach m ∉ turn.edits

/-- **The middleware attaches no measurement** in any of its turns. -/
def Middleware.NeverAttaches (middleware : Middleware σ) : Prop :=
  ∀ sight, (middleware sight).NeverAttaches ∧
    ∀ after, (middleware sight).next = .proceed after →
      ∀ sight' ending, (after sight' ending).NeverAttaches

def Layer.NeverAttaches : Layer σ → Prop
  | timing _ => True
  | custom middleware => middleware.NeverAttaches

theorem Turn.NeverAttaches.measurement_take {α : Type} {turn : Turn σ α} (h : turn.NeverAttaches)
    (p : Passage σ) : (p.take turn).exchange.measurement = p.exchange.measurement := by
  have hfold : ∀ (edits : List Edit) (x : Exchange σ), (∀ m, .attach m ∉ edits) →
      (edits.foldl Edit.apply x).measurement = x.measurement := by
    intro edits
    induction edits with
    | nil => exact fun x _ => rfl
    | cons e edits ih =>
      intro x hedits
      refine (ih (e.apply x) fun m hm => hedits m (List.mem_cons_of_mem e hm)).trans ?_
      cases e with
      | setStatus | setResponse => rfl
      | attach m => exact absurd List.mem_cons_self (hedits m)
  exact hfold turn.edits p.exchange h

/-! ## Over a pass -/

namespace Chain

variable {timed : Nat → Bool} {base : Service σ}

/-- **A pass keeps the invariant**, whatever its middlewares do. -/
theorem measuredOnce_run (position : Nat) (layers : List (Layer σ)) (p : Passage σ)
    (htimed : TimedAs timed position layers) (hnever : ∀ layer ∈ layers, layer.NeverAttaches)
    (hp : p.MeasuredOnce timed base) :
    (run position layers p).1.MeasuredOnce timed base ∧
      ∀ m, p.exchange.measurement = some m →
        (run position layers p).1.exchange.measurement = some m := by
  revert htimed hnever hp
  refine run_rec
    (motive := fun position layers p q _ => TimedAs timed position layers →
      (∀ layer ∈ layers, layer.NeverAttaches) → p.MeasuredOnce timed base →
      q.MeasuredOnce timed base ∧
        ∀ m, p.exchange.measurement = some m → q.exchange.measurement = some m)
    ?nil ?timing ?stop ?proceed position layers p
  case nil =>
    intro _ p _ _ ⟨entries, own, hp⟩
    have hm := measurement_endpoint p
    refine ⟨hp.quiet ((quiet_endpoint p).mono ?_) hm, fun m h => hm.trans h⟩
    rintro e (rfl | rfl) <;> exact ⟨rfl, rfl, rfl⟩
  case timing =>
    intro position layer rest p q ending ih htimed hnever ⟨entries, own, hp⟩
    obtain ⟨⟨entries', own', hq⟩, hkeep⟩ := ih htimed.tail
      (fun l hl => hnever l (List.mem_cons_of_mem _ hl)) (hp.enter htimed.head layer)
    have hm : q.exchange.measurement = some (measured position layer p) :=
      hkeep _ (measurement_entered position layer p)
    -- what the layer does at its end is quiet, or it closes the measurement it has at hand
    have hleave : (layer.leave (measured position layer p) q ending).MeasuredOnce timed base ∧
        (layer.leave (measured position layer p) q ending).exchange.measurement =
          q.exchange.measurement := by
      match ending with
      | .crashed message => exact ⟨⟨entries', own', hq⟩, rfl⟩
      | .returned (.error e) => exact ⟨hq.close hm rfl rfl, rfl⟩
      | .returned (.ok ()) =>
        by_cases hpending : q.exchange.pending = none
        · rw [TimingLayer.leave_of_finished hpending]
          exact ⟨hq.close hm rfl rfl, rfl⟩
        · rw [TimingLayer.leave_of_deferred hpending]
          exact ⟨hq.quiet (.note q.service ⟨rfl, rfl, rfl⟩) rfl, rfl⟩
    obtain ⟨⟨entries'', own'', hleft⟩, hleftm⟩ := hleave
    refine ⟨hleft.quiet (.note _ ⟨rfl, rfl, rfl⟩) rfl, fun m h => ?_⟩
    rw [measured_of_some _ _ h] at hm
    exact hleftm.trans hm
  case stop =>
    intro position middleware rest p ending _ htimed hnever ⟨entries, own, hp⟩
    have hcustom : timed position = false := htimed.head
    have hm := ((hnever _ List.mem_cons_self) p.sight).1.measurement_take
      (p.note (.layerEntered position))
    refine ⟨hp.quiet ?_ hm, fun m h => hm.trans h⟩
    have hfirst := quiet_firstTurn (P := Entry.IsPlain timed) position middleware p
      ⟨rfl, rfl, by simp [Entry.entered?, hcustom]⟩
    exact hfirst.trans (.note _ ⟨rfl, rfl, rfl⟩)
  case proceed =>
    intro position middleware rest p after q ending hnext ih htimed hnever ⟨entries, own, hp⟩
    have hcustom : timed position = false := htimed.head
    have hmiddleware := (hnever _ List.mem_cons_self) p.sight
    have hfirst := hmiddleware.1.measurement_take (p.note (.layerEntered position))
    obtain ⟨⟨entries', own', hq⟩, hkeep⟩ := ih htimed.tail
      (fun l hl => hnever l (List.mem_cons_of_mem _ hl))
      (hp.quiet (quiet_firstTurn position middleware p
        ⟨rfl, rfl, by simp [Entry.entered?, hcustom]⟩) hfirst)
    have hsecond := (hmiddleware.2 after hnext q.sight ending).measurement_take q
    refine ⟨hq.quiet ((Passage.quiet_take q _).trans (.note _ ⟨rfl, rfl, rfl⟩)) hsecond, ?_⟩
    exact fun m h => hsecond.trans (hkeep m (hfirst.trans h))

end Chain

/-! ## Over all passes -/

namespace App

variable {base : Service σ}

theorem measuredOnce_ended {app : App σ} {p : Passage σ}
    (hnever : ∀ layer ∈ app.layers, layer.NeverAttaches)
    (hp : p.MeasuredOnce app.timesAt base) : (app.ended p).1.MeasuredOnce app.timesAt base := by
  obtain ⟨entries, own, hp⟩ := hp
  have hopened : (opened p).MeasuredOnce app.timesAt base :=
    hp.quiet (.note p.service ⟨rfl, rfl, rfl⟩) rfl
  obtain ⟨entries', own', hq⟩ :=
    (Chain.measuredOnce_run 0 app.layers (opened p) (.of_app app) hnever hopened).1
  exact hq.quiet (.note _ ⟨rfl, rfl, rfl⟩) rfl

/-- Running deferred work leaves measurements alone. -/
theorem measuredOnce_runWork {timed : Nat → Bool} {p : Passage σ} {work : Work σ}
    (hp : p.MeasuredOnce timed base) : (p.runWork work).MeasuredOnce timed base := by
  obtain ⟨entries, own, hp⟩ := hp
  rcases p.runWork_cases work with ⟨reply, -, -, heq⟩ | ⟨e, status, -, heq⟩
  · rw [heq]
    refine hp.quiet (.told p.service _ ?_) rfl
    simp [Entry.IsPlain, Entry.mark?, Entry.measuring?, Entry.entered?]
  · rw [heq]
    refine hp.quiet (.told p.service _ ?_) rfl
    simp [Entry.IsPlain, Entry.mark?, Entry.measuring?, Entry.entered?]

theorem measuredOnce_answerError {timed : Nat → Bool} {p : Passage σ} {e : ChainError}
    (hp : p.MeasuredOnce timed base) : (p.answerError e).MeasuredOnce timed base := by
  obtain ⟨entries, own, hp⟩ := hp
  obtain ⟨dropped, hdropped, heq⟩ := p.answerError_eq e
  have htold : p.service.Quiet (Entry.IsPlain timed)
      { p.service with
        journal := p.service.journal ++
          .logged (.requestFailed e p.exchange.status.orServerError) :: dropped.map .logged } := by
    refine .told p.service p.service.state ?_
    intro e he
    rcases List.mem_cons.mp he with rfl | he
    · exact ⟨rfl, rfl, rfl⟩
    · obtain ⟨event, hevent, rfl⟩ := List.mem_map.mp he
      rw [hdropped event hevent]
      exact ⟨rfl, rfl, rfl⟩
  rw [heq]
  cases hm : p.exchange.measurement with
  | none => exact hp.quiet htold rfl
  | some m =>
    obtain ⟨entries', own', hq⟩ :=
      hp.quiet (q := { service := _, exchange := p.exchange }) htold rfl
    exact hq.abandon hm rfl rfl

/-- **The invariant holds when a request has come to its end**, by a response or by a crash. -/
theorem measuredOnce_run? {app : App σ} {request : Request} {service : Service σ} {q : Passage σ}
    {crash : Option String} (hnever : ∀ layer ∈ app.layers, layer.NeverAttaches)
    (h : app.run? request service = some (q, crash)) : q.MeasuredOnce app.timesAt service := by
  have hstart : (app.start request service).MeasuredOnce app.timesAt service := by
    obtain ⟨params, route, hx⟩ := app.begin_fresh request
    refine ⟨[], [], (List.append_nil _).symm, (List.append_nil _).symm, .unmeasured, ?_, ?_, rfl⟩
    · simp [start, hx, Exchange.fresh]
    · simp
  obtain ⟨last, hlast, hpass⟩ := run?_rec hstart
    (fun p p' hp hpass => by
      obtain ⟨-, work, -, rfl⟩ := pass_eq_again_iff.mp hpass
      exact measuredOnce_runWork (measuredOnce_ended hnever hp)) h
  have hended := measuredOnce_ended hnever hlast
  rcases pass_eq_final_iff.mp hpass with ⟨message, -, rfl, -⟩ | ⟨e, -, rfl, -⟩ | ⟨-, -, rfl, -⟩
  · exact hended
  · exact measuredOnce_answerError hended
  · exact hended

/-- **An exchange is measured once.** Over the whole way of a request, registries are called as the
journal tells, and a sample is started exactly once if a timing layer is ever entered, and never
otherwise. Every timing layer entered, on every pass, has the measurement of that sample at hand.
The sample is taken out of it at most once, be it to be recorded or to be dropped, is stopped as
often, and is recorded only after that. -/
theorem handle_measures_once (app : App σ) (request : Request) (service : Service σ)
    (hnever : ∀ layer ∈ app.layers, layer.NeverAttaches) :
    ∃ entries own,
      (app.handle request service).1.journal = service.journal ++ entries ∧
      Told service.registries (app.handle request service).1.registries entries ∧
      (app.handle request service).1.measurements = service.measurements ++ own ∧
      let marks := entries.filterMap Entry.mark?
      Life own marks ∧
        ((∃ i, app.timesAt i ∧ .layerEntered i ∈ entries) → marks.countP Mark.isStart = 1) ∧
        ((∀ i, app.timesAt i → .layerEntered i ∉ entries) → marks.countP Mark.isStart = 0) ∧
        entries.filterMap Entry.measuring? =
          (entries.filterMap (Entry.entered? app.timesAt)).map (·, service.measurements.length) ∧
        marks.countP Mark.isHandout ≤ 1 ∧
        marks.countP Mark.isStop = marks.countP Mark.isHandout := by
  obtain ⟨q, crash, hrun⟩ := app.exists_run? request service
  obtain ⟨entries, own, hq⟩ := measuredOnce_run? hnever hrun
  have hentered : entries.filterMap (Entry.entered? app.timesAt) = [] ↔
      ∀ i, app.timesAt i → .layerEntered i ∉ entries := by
    rw [List.filterMap_eq_nil_iff]
    constructor
    · intro h i hi hmem
      simpa [Entry.entered?, hi] using h _ hmem
    · intro h e he
      cases e with
      | layerEntered i =>
        by_cases hi : app.timesAt i
        · exact absurd he (h i hi)
        · simp [Entry.entered?, hi]
      | _ => rfl
  have htold : Told service.registries (app.handle request service).1.registries entries := by
    obtain ⟨entries', hjournal, htold⟩ := app.calledAsTold_handle request service
    have heq : service.journal ++ entries' = service.journal ++ entries := by
      rw [← hjournal, handle_of_run? hrun, hq.journal]
    rw [← List.append_cancel_left heq]
    exact htold
  rw [handle_of_run? hrun] at htold ⊢
  refine ⟨entries, own, hq.journal, htold, hq.measurements, hq.life, ?_, ?_, hq.measuring,
    hq.life.countP_isHandout_le, hq.life.countP_isStop⟩
  · rintro ⟨i, hi, hmem⟩
    have hown : own ≠ [] := fun h => (hentered.mp (hq.entered.mpr h)) i hi hmem
    have hpos := List.length_pos_iff.mpr hown
    have hle := hq.life.length_le
    rw [hq.life.countP_isStart]
    omega
  · intro h
    rw [hq.life.countP_isStart, hq.entered.mp (hentered.mpr h)]
    rfl

end App

theorem Middleware.neverAttaches_transparent : (transparent : Middleware σ).NeverAttaches := by
  intro sight
  refine ⟨fun m => List.not_mem_nil, ?_⟩
  intro after hafter sight' ending m
  cases hafter
  exact List.not_mem_nil

/-- Two timing layers, one of them inside a middleware, and deferred work that fails: four times a
timing layer is entered, and each time it has the one measurement at hand. -/
theorem Exports.measured_once :
    let app : App Unit :=
      { routes := routes (.fail { className := "Timeout", message := "late" })
        layers := [.timing { registry := 0 }, .custom .transparent, .timing { registry := 1 }] }
    (∀ layer ∈ app.layers, layer.NeverAttaches) ∧
      ∃ entries own, (app.handle request { state := () }).1.journal = entries ∧
        Life own (entries.filterMap Entry.mark?) ∧
        (entries.filterMap Entry.mark?).countP Mark.isStart = 1 ∧
        entries.filterMap Entry.measuring? = [(0, 0), (2, 0), (0, 0), (2, 0)] := by
  intro app
  have hnever : ∀ layer ∈ app.layers, layer.NeverAttaches := by
    simp [app, Layer.NeverAttaches, Middleware.neverAttaches_transparent]
  obtain ⟨entries, own, hjournal, -, -, hlife, -, -, hmeasuring, -, -⟩ :=
    app.handle_measures_once request { state := () } hnever
  rw [List.nil_append] at hjournal
  refine ⟨hnever, entries, own, hjournal, hlife, ?_, ?_⟩
  · rw [← hjournal]
    decide
  · rw [← hjournal]
    decide

end TimedHttp
