import TimedHttp.Service
import TimedHttp.Timing.StandardTags

/-!
# Timing layers

A timing layer measures an exchange from its first pass to its last. The first layer that an
exchange meets starts the measurement; every layer, on every pass, finds it there. The layer that
sees a pass end with nothing deferred stops it, unless another one has done so.

Nothing a layer does changes what its inner stages returned, whatever registry and tags provider
do; only a failure whose status is neither 4xx nor 5xx gets the status 500.
-/

namespace TimedHttp

/-- **Timing layer**. -/
structure TimingLayer (σ : Type) where
  /-- the number of the registry that is measured into -/
  registry : Nat
  tags : TagsProvider σ := StandardTags.provider false
  metric : String := "http.server.requests"
  /-- routes without declarations are timed -/
  byDefault : Bool := true

namespace TimingLayer

variable {σ : Type}

/-- The measurement of the exchange, started if there is none yet. -/
def enter (layer : TimingLayer σ) (p : Passage σ) : Nat × Passage σ :=
  match p.exchange.measurement with
  | some measurement => (measurement, p)
  | none =>
    let measurement := p.service.measurements.length
    (measurement,
      { service := p.service.openMeasurement layer.registry (.ofRequest p.exchange.request)
        exchange := p.exchange.attach measurement })

/-- The timers of a finished exchange: none, with a warning, if the tags provider crashes. -/
def timers (layer : TimingLayer σ) (x : Exchange σ) (outcome : Outcome) :
    List Event × List Timer :=
  match layer.tags x x.route outcome with
  | .ok tags =>
    ([], timersOf layer.byDefault layer.metric ((x.route.map Route.declarations).getD []) tags)
  | .error _ => ([.tagsProviderCrashed], [])

/-- The event that closes a measurement. -/
def closing (outcome : Outcome) : Stopped → Event
  | .recorded _ => .exchangeTimed outcome.name
  | .refused error => .measurementRefused error
  | .crashed _ => .registryCrashed

/-- Stops the measurement of a finished exchange. Its response side is what the exchange ended with,
unless another one was settled before. -/
def close (layer : TimingLayer σ) (measurement : Nat) (x : Exchange σ) (failure : Option Failure)
    (s : Service σ) : Service σ :=
  match s.running? measurement with
  | none => s.log .sampleAlreadyStopped
  | some (sample, attribution) =>
    let outcome := Outcome.classify x.status failure
    let attribution := (s.attributed measurement attribution).settle
      { status := x.status, error := outcome.errorClass }
    let (warnings, timers) := layer.timers x outcome
    let s := (s.finish measurement attribution).note
      (.tagsResolved outcome (layer.tags x x.route outcome))
    let s := warnings.foldl Service.log s
    let (s, stopped) := s.stopSample sample attribution timers
    s.log (closing outcome stopped)

/-- What the layer does when its inner stages have ended. -/
def leave (layer : TimingLayer σ) (measurement : Nat) (p : Passage σ) (ending : Ending) :
    Passage σ :=
  match ending with
  | .crashed _ => p
  | .returned (.ok ()) =>
    if p.exchange.isDeferred then p.log .sampleLeftRunning
    else
      { p with
        service := layer.close measurement p.exchange (p.exchange.error.map .captured) p.service }
  | .returned (.error e) =>
    let x := p.exchange.failStatus
    { service := layer.close measurement x (some (.ofError e)) p.service, exchange := x }

end TimingLayer

end TimedHttp
