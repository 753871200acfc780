import TimedHttp.Http.Status
import TimedHttp.Text.QualifiedName
import TimedHttp.Text.Quoted

/-!
# Failures

Two kinds of failure are kept apart. A `ChainError` is raised while a request is processed; it
travels up the chain and is answered as a response. A `RecordError` says that a registry did not
take a measurement; it is logged and never reaches the client.

## Main definitions

* `HandlerError` — what a handler raises: a class, a message, perhaps a status
* `ChainError`, `ChainError.unwrap` — the same under any number of wrappings, and one taken off
* `RecordError`
-/

namespace TimedHttp

/-- **Handler error**. Its class is the name under which it is reported. -/
structure HandlerError where
  className : String
  message : String
  status : Option Status := none
  deriving DecidableEq

namespace HandlerError

/-- An error made from a value of a named type: the class is the short form of the name. -/
def ofType (typeName message : String) : HandlerError :=
  { className := Text.shortName typeName, message }

/-- Maps the error to a status. -/
def withStatus (e : HandlerError) (status : Status) : HandlerError :=
  { e with status := some status }

/-- The error in one line. -/
def text (e : HandlerError) : String := e.className ++ ": " ++ e.message

/-- The error with all its parts, texts quoted. -/
def inspect (e : HandlerError) : String :=
  "HandlerError \x7b class: " ++ Text.quote e.className ++ ", message: " ++ Text.quote e.message
    ++ ", status: " ++ (match e.status with | some s => "Some(" ++ s.digits ++ ")" | none => "None")
    ++ " \x7d"

/-- What deferred work that crashed is reported as. -/
def crashed : HandlerError := { className := "Panic", message := "deferred work panicked" }

end HandlerError

/-- **Chain error**: a handler error under any number of wrappings. -/
inductive ChainError where
  | handler (error : HandlerError)
  | nested (cause : ChainError)
  deriving DecidableEq

namespace ChainError

/-- Takes one wrapping off, if there is one. -/
def unwrap : ChainError → ChainError
  | handler e => handler e
  | nested cause => cause

def isNested : ChainError → Bool
  | handler _ => false
  | nested _ => true

/-- The name under which the error is reported; a wrapped error hides that of its cause. -/
def className : ChainError → String
  | handler e => e.className
  | nested _ => "NestedChainError"

/-- The status to which the handler error inside is mapped. -/
def status : ChainError → Option Status
  | handler e => e.status
  | nested cause => cause.status

def text : ChainError → String
  | handler e => e.text
  | nested cause => "request processing failed: " ++ cause.text

/-- The errors under each wrapping, from the outside in. -/
def sources : ChainError → List ChainError
  | handler _ => []
  | nested cause => cause :: cause.sources

/-- The error under `n` wrappings. -/
def wrap (e : ChainError) : Nat → ChainError
  | 0 => e
  | n + 1 => nested (wrap e n)

end ChainError

/-- **Record error**: why a registry did not take a measurement. -/
inductive RecordError where
  | rejected (timer reason : String)
  | unavailable (reason : String)
  deriving DecidableEq

def RecordError.text : RecordError → String
  | rejected timer reason => "timer `" ++ timer ++ "` rejected: " ++ reason
  | unavailable reason => "timer backend unavailable: " ++ reason

end TimedHttp
