import TimedHttp.Event
import TimedHttp.Metric.Store

/-!
# Registries

A registry is told when a sample starts, and takes measurements. It may refuse a measurement, and
it may crash; what it did before stays done. When a sample starts, the registry has the attribution
at hand, and may settle its response side.

## Main definitions

* `Verdict` — what comes of handing over a measurement
* `Policy` — decides over each call, knowing all calls before it
* `Registry`, `Registry.start`, `Registry.record`
-/

namespace TimedHttp

/-- **Verdict** of a registry on a measurement. -/
inductive Verdict where
  | taken
  | refused (error : RecordError)
  | crashed (message : String)
  deriving DecidableEq

/-- **Call** to a registry, with the attribution as it was then. -/
inductive Call where
  | started (attribution : Attribution)
  | recorded (timer : Timer) (elapsed : Duration) (attribution : Attribution)
  deriving DecidableEq

/-- **Policy** of a guarded registry: decides over a call from the calls before it. Whatever a
registry answers to its calls, some policy answers the same. -/
structure Policy where
  /-- the message of a crash when a sample starts -/
  onStart : List Call → Attribution → Option String
  /-- the response side that is settled when a sample starts, even if the registry crashes then -/
  settlesOnStart : List Call → Attribution → Option ExchangeResult := fun _ _ => none
  onRecord : List Call → Timer → Duration → Attribution → Verdict

/-- **Registry** of measurements. -/
inductive Registry where
  /-- keeps summaries -/
  | memory (store : Store)
  /-- logs each measurement and keeps nothing -/
  | logging
  /-- notes each call and asks a policy; what the policy lets pass goes to a store -/
  | guarded (policy : Policy) (calls : List Call) (store : Store)

namespace Registry

/-- The text of the crash when the sum of measurements leaves the range of durations. -/
def sumOverflow : String := "overflow when adding durations"

/-- Hands a measurement to a store. The overflow of a sum is noticed after the count was raised. -/
def recordInto (store : Store) (timer : Timer) (elapsed : Duration) : Store × Verdict :=
  (store.record timer elapsed,
    if store.overflows timer elapsed then .crashed sumOverflow else .taken)

/-- Tells the registry that a sample starts. Gives the response side if it settles that, and the
message if it crashes. -/
def start (a : Attribution) : Registry → Registry × Option ExchangeResult × Option String
  | memory store => (memory store.start, none, none)
  | logging => (logging, none, none)
  | guarded policy calls store =>
    let calls' := calls ++ [.started a]
    let result := policy.settlesOnStart calls a
    match policy.onStart calls a with
    | some message => (guarded policy calls' store, result, some message)
    | none => (guarded policy calls' store.start, result, none)

/-- Hands over one measurement. Gives what the registry logs, and its verdict. -/
def record (timer : Timer) (elapsed : Duration) (a : Attribution) :
    Registry → Registry × List Event × Verdict
  | memory store =>
    let (store, verdict) := recordInto store timer elapsed
    (memory store, [], verdict)
  | logging => (logging, [.requestTimed timer a], .taken)
  | guarded policy calls store =>
    let calls' := calls ++ [.recorded timer elapsed a]
    match policy.onRecord calls timer elapsed a with
    | .taken =>
      let (store, verdict) := recordInto store timer elapsed
      (guarded policy calls' store, [], verdict)
    | verdict => (guarded policy calls' store, [], verdict)

/-- The store of a registry that keeps one. -/
def store? : Registry → Option Store
  | memory store => some store
  | logging => none
  | guarded _ _ store => some store

/-- The calls to a guarded registry. -/
def calls? : Registry → Option (List Call)
  | guarded _ calls _ => some calls
  | _ => none

end Registry

end TimedHttp
