import TimedHttp.Failure

/-!
# Outcomes

How an exchange ended: completed, completed with a failure of deferred work that was answered
before, or with an error that left the chain. Of a wrapped error, the outcome names the cause under
the outermost wrapping.
-/

namespace TimedHttp

/-- **Failure** of an exchange. -/
inductive Failure where
  /-- deferred work failed and was answered already -/
  | captured (error : HandlerError)
  /-- an error left the chain; one wrapping was taken off if there was one -/
  | raised (cause : ChainError) (wrapped : Bool)
  deriving DecidableEq

namespace Failure

/-- The failure of an error that left the chain. -/
def ofError (e : ChainError) : Failure := raised e.unwrap e.isNested

def className : Failure → String
  | captured e => e.className
  | raised cause _ => cause.className

end Failure

/-- **Outcome** of an exchange. -/
inductive Outcome where
  | completed (status : Status)
  | completedWithError (status : Status) (className : String)
  | unhandledError (className : String)
  deriving DecidableEq

namespace Outcome

/-- The outcome of an exchange with a status and perhaps a failure. -/
def classify (status : Status) : Option Failure → Outcome
  | none => completed status
  | some (.captured e) => completedWithError status e.className
  | some (.raised cause _) => unhandledError cause.className

/-- The name of the outcome. -/
def name : Outcome → String
  | completed _ => "COMPLETED"
  | completedWithError .. => "COMPLETED_WITH_HANDLER_EXCEPTION"
  | unhandledError _ => "UNHANDLED_EXCEPTION"

def status? : Outcome → Option Status
  | completed s => some s
  | completedWithError s _ => some s
  | unhandledError _ => none

/-- The class of the error, if there was one. -/
def errorClass : Outcome → Option String
  | completed _ => none
  | completedWithError _ c => some c
  | unhandledError c => some c

end Outcome

end TimedHttp
