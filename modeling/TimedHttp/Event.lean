import TimedHttp.Failure
import TimedHttp.Metric.Attribution
import TimedHttp.Metric.Timer

/-!
# Log events

Everything that is logged, with its level, its message and its fields. Each text stands in one
place: an event is a cause, `Event.message` and `Event.fields` are its wording.
-/

namespace TimedHttp

/-- **Level** of a log event. -/
inductive Level where
  | error
  | warn
  | info
  | debug
  deriving DecidableEq

def Level.name : Level → String
  | error => "ERROR"
  | warn => "WARN"
  | info => "INFO"
  | debug => "DEBUG"

/-- **Log event**. -/
inductive Event where
  /-- an error left the chain and was answered with a status -/
  | requestFailed (error : ChainError) (status : Status)
  /-- work was still deferred when an error left the chain -/
  | workDropped
  | workStarted
  /-- deferred work failed and was answered with a status -/
  | workFailed (error : HandlerError) (status : Status)
  /-- a timed exchange got its span -/
  | spanOpened (attribution : Attribution)
  | startHookCrashed
  /-- a pass ended with work deferred, and the sample goes on -/
  | sampleLeftRunning
  /-- a timing layer met a sample that another one had stopped -/
  | sampleAlreadyStopped
  | tagsProviderCrashed
  /-- all measurements of an exchange were taken -/
  | exchangeTimed (outcome : String)
  /-- some measurement of an exchange was refused -/
  | measurementRefused (error : RecordError)
  | registryCrashed
  /-- an exchange ended without passing a timing layer again -/
  | exchangeAbandoned
  /-- the logging registry took a measurement -/
  | requestTimed (timer : Timer) (attribution : Attribution)
  /-- a response named a header field that is none -/
  | fieldDropped (name : String)
  /-- a request was answered without reaching the application -/
  | bodyUnreadable (peer : SocketAddress) (reason : String)
  deriving DecidableEq

/-- **Value of a field** of an event. -/
inductive FieldValue where
  | text (value : String)
  | number (value : Nat)
  deriving DecidableEq

namespace Event

def level : Event → Level
  | requestFailed .. | workFailed .. => .error
  | startHookCrashed | tagsProviderCrashed | measurementRefused _ | registryCrashed
  | exchangeAbandoned | fieldDropped _ | bodyUnreadable .. => .warn
  | spanOpened _ | requestTimed .. => .info
  | workDropped | workStarted | sampleLeftRunning | sampleAlreadyStopped | exchangeTimed _ => .debug

/-- The message; a span has a name in its fields instead. -/
def message : Event → Option String
  | requestFailed .. => some "request failed"
  | workDropped => some "dropping deferred work after chain error"
  | workStarted => some "running deferred work"
  | workFailed .. => some "deferred work failed"
  | spanOpened _ => none
  | startHookCrashed => some "timer registry panicked while starting a sample"
  | sampleLeftRunning => some "exchange deferred; timing stays open"
  | sampleAlreadyStopped => some "timing already stopped for this exchange"
  | tagsProviderCrashed => some "tags provider panicked; dropping timer metrics"
  | exchangeTimed _ => some "exchange timed"
  | measurementRefused _ => some "failed to record timer metrics"
  | registryCrashed => some "timer registry panicked; dropping timer metrics"
  | exchangeAbandoned => some "exchange dropped before completing; dropping timer metrics"
  | requestTimed .. => some "request timed"
  | fieldDropped _ => some "dropping invalid response header"
  | bodyUnreadable _ reason => some ("failed to read request body: " ++ reason)

/-- An address that may be absent, as text. -/
def addressText : Option SocketAddress → String
  | none => "None"
  | some address => "Some(" ++ address.text ++ ")"

/-- The fields; those without a value are left out. -/
def fields : Event → List (String × FieldValue)
  | requestFailed error status => [("error", .text error.text), ("status", .text status.text)]
  | workFailed error status => [("error", .text error.text), ("status", .text status.text)]
  | spanOpened a =>
    [("span", .text "http.server.request"), ("method", .text a.method.name),
      ("target", .text a.target), ("remote", .text (addressText a.remoteAddress))]
  | exchangeTimed outcome => [("outcome", .text outcome)]
  | measurementRefused error => [("error", .text error.text)]
  | requestTimed timer a =>
    [("timer", .text timer.name), ("tags", .text timer.tags.text)]
      ++ (timer.description.map fun d => ("description", FieldValue.text d)).toList
      ++ [("method", .text a.method.name), ("target", .text a.target)]
      ++ (a.result.map fun r => ("status", FieldValue.number r.status.code)).toList
  | fieldDropped name => [("header", .text name)]
  | bodyUnreadable peer _ => [("peer", .text peer.text)]
  | _ => []

end Event

end TimedHttp
