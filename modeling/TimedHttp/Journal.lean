import TimedHttp.Exchange
import TimedHttp.Metric.Registry
import TimedHttp.Timing.Outcome

/-!
# The journal

Everything that a service does is noted in order: what is logged, the passes of an exchange, the
stages that it enters and leaves, the measurements that timing layers take up, handlers called and
work run, samples started and stopped, outcomes and tags, and every measurement handed to a
registry.
-/

namespace TimedHttp

/-- **Ending** of a stage of the chain: it returned, with or without an error, or it crashed. -/
inductive Ending where
  | returned (result : Except ChainError Unit)
  | crashed (message : String)

/-- **Journal entry**. -/
inductive Entry where
  | logged (event : Event)
  | passBegan (kind : PassKind)
  /-- how the chain as a whole ended -/
  | passEnded (ending : Ending)
  | layerEntered (position : Nat)
  /-- the timing layer at the position has the measurement of the exchange at hand -/
  | measuring (position measurement : Nat)
  | layerLeft (position : Nat) (ending : Ending)
  | endReached
  | handlerCalled
  /-- deferred work was run that will itself defer so often -/
  | workRan (deferrals : Nat)
  | sampleStarted (registry : Nat) (attribution : Attribution)
  | sampleStopped (registry : Nat)
  /-- the outcome of a finished exchange, and its tags or the message of the provider's crash -/
  | tagsResolved (outcome : Outcome) (tags : Except String Tags)
  | recorded (registry : Nat) (timer : Timer) (elapsed : Duration) (attribution : Attribution)
      (verdict : Verdict)

/-- The event of an entry that logs one. -/
def Entry.event? : Entry → Option Event
  | logged event => some event
  | _ => none

end TimedHttp
