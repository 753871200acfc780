import TimedHttp.Journal

/-!
# The running service

What outlives a pass and an exchange: the state of the application, the registries, the
measurements, the clock, and the journal.

A measurement is numbered when it starts. It holds its sample as long as the sample runs; stopping
takes the sample out, so it cannot be stopped twice. What registries and middlewares settle of a
measurement before its sample stops is kept beside it.

## Main definitions

* `Sample`, `Measurement` — a running clock, and what it measures
* `Service` — the state
* `Service.startSample`, `Service.stopSample` — the two ends of a sample
* `Service.openMeasurement`, `Service.abandon` — a measurement starts, and ends unrecorded
-/

namespace TimedHttp

/-- **Sample**: a running clock, and the registry that is told when it stops. -/
structure Sample where
  registry : Nat
  started : Duration
  deriving DecidableEq

/-- **Measurement** of an exchange; its sample is there while it runs. -/
structure Measurement where
  sample : Option Sample
  attribution : Attribution
  deriving DecidableEq

def Measurement.isFinished (m : Measurement) : Bool := m.sample.isNone

/-- **Service** over an application with state in `σ`. -/
structure Service (σ : Type) where
  state : σ
  registries : List Registry := []
  /-- all measurements in the order of their numbers -/
  measurements : List Measurement := []
  /-- what was settled of them before they were closed -/
  early : EarlyResults := .none
  /-- what the clock shows each time it is read -/
  clock : Nat → Duration := fun _ => .zero
  /-- how often the clock was read -/
  readings : Nat := 0
  journal : List Entry := []

/-- What came of stopping a sample. -/
inductive Stopped where
  /-- every timer took the measurement -/
  | recorded (elapsed : Duration)
  /-- the first refusal; the other timers were still tried -/
  | refused (error : RecordError)
  /-- the registry crashed; the timers after that were not tried -/
  | crashed (message : String)
  deriving DecidableEq

namespace Service

variable {σ : Type}

def note (s : Service σ) (entry : Entry) : Service σ := { s with journal := s.journal ++ [entry] }

def log (s : Service σ) (event : Event) : Service σ := s.note (.logged event)

/-- The events logged, in order. -/
def events (s : Service σ) : List Event := s.journal.filterMap Entry.event?

/-- The time that the clock will show next. -/
def now (s : Service σ) : Duration := s.clock s.readings

def readClock (s : Service σ) : Service σ := { s with readings := s.readings + 1 }

/-- Tells a registry that a sample starts, and starts it. A crash of the registry is logged and the
sample runs all the same. Gives the response side too, if the registry settles it. -/
def startSample (s : Service σ) (registry : Nat) (a : Attribution) :
    Service σ × Sample × Option ExchangeResult :=
  let s := s.note (.sampleStarted registry a)
  let (s, result) :=
    match s.registries[registry]? with
    | none => (s, none)
    | some r =>
      let (r, result, crash) := r.start a
      let s := { s with registries := s.registries.set registry r }
      (if crash.isSome then s.log .startHookCrashed else s, result)
  (s.readClock, { registry, started := s.now }, result)

/-- Hands one measurement to a registry. -/
def record (s : Service σ) (registry : Nat) (timer : Timer) (elapsed : Duration)
    (a : Attribution) : Service σ × Verdict :=
  match s.registries[registry]? with
  | none => (s.note (.recorded registry timer elapsed a .taken), .taken)
  | some r =>
    let (r, events, verdict) := r.record timer elapsed a
    let s := { s with registries := s.registries.set registry r }
    let s := events.foldl log s
    (s.note (.recorded registry timer elapsed a verdict), verdict)

/-- Hands one measurement to a registry for each timer, in order, until it crashes. Keeps the first
refusal, `first` being one from before. -/
def recordAll (registry : Nat) (elapsed : Duration) (a : Attribution) :
    List Timer → Option RecordError → Service σ → Service σ × Stopped
  | [], none, s => (s, .recorded elapsed)
  | [], some e, s => (s, .refused e)
  | timer :: timers, first, s =>
    match s.record registry timer elapsed a with
    | (s, .taken) => recordAll registry elapsed a timers first s
    | (s, .refused e) => recordAll registry elapsed a timers (first.or (some e)) s
    | (s, .crashed message) => (s, .crashed message)

/-- Stops a sample and records the time it ran into every timer. -/
def stopSample (s : Service σ) (sample : Sample) (a : Attribution) (timers : List Timer) :
    Service σ × Stopped :=
  let elapsed := s.now.since sample.started
  let s := s.readClock.note (.sampleStopped sample.registry)
  recordAll sample.registry elapsed a timers none s

/-- Starts a measurement: a sample and the span of its exchange. -/
def openMeasurement (s : Service σ) (registry : Nat) (a : Attribution) : Service σ :=
  let (s, sample, result) := s.startSample registry a
  let s := s.log (.spanOpened a)
  { s with
    measurements := s.measurements ++ [{ sample := some sample, attribution := a }]
    early := s.early.start s.measurements.length result }

/-- The attribution of a measurement together with what was settled of it early. -/
def attributed (s : Service σ) (measurement : Nat) (a : Attribution) : Attribution :=
  (s.early measurement).elim a a.settle

/-- All measurements as they look from outside. -/
def seen (s : Service σ) : List Measurement :=
  s.measurements.mapIdx fun m x => { x with attribution := s.attributed m x.attribution }

/-- The sample and the attribution of a measurement that still runs. -/
def running? (s : Service σ) (measurement : Nat) : Option (Sample × Attribution) :=
  match s.measurements[measurement]? with
  | some { sample := some sample, attribution } => some (sample, attribution)
  | _ => none

/-- Takes the sample out of a measurement and leaves the given attribution. -/
def finish (s : Service σ) (measurement : Nat) (attribution : Attribution) : Service σ :=
  { s with measurements := s.measurements.set measurement { sample := none, attribution } }

/-- Stops a measurement whose exchange will not be timed again, recording nothing. -/
def abandon (s : Service σ) (measurement : Nat) : Service σ :=
  match s.running? measurement with
  | none => s
  | some (sample, a) =>
    let s := (s.finish measurement a).log .exchangeAbandoned
    (s.stopSample sample a []).1

end Service

/-- **Passage** of an exchange through a running service. -/
structure Passage (σ : Type) where
  service : Service σ
  exchange : Exchange σ

namespace Passage

variable {σ : Type}

def note (p : Passage σ) (entry : Entry) : Passage σ := { p with service := p.service.note entry }

def log (p : Passage σ) (event : Event) : Passage σ := { p with service := p.service.log event }

end Passage

end TimedHttp
