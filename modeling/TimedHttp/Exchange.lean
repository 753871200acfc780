import TimedHttp.Route.Route

/-!
# Exchanges

An exchange is the state of one request on its way through the chain. It is kept over all passes of
the request: what a stage leaves on it is still there on the next pass.
-/

namespace TimedHttp

/-- **Kind of a pass** through the chain. -/
inductive PassKind where
  /-- the first pass -/
  | request
  /-- a pass after deferred work has run -/
  | resumed
  deriving DecidableEq

/-- **Exchange**. -/
structure Exchange (σ : Type) where
  request : Request
  /-- the route that the request matched -/
  route : Option (Route σ)
  response : Response := .bare .ok
  kind : PassKind := .request
  /-- work that was deferred and has not run -/
  pending : Option (Work σ) := none
  /-- what deferred work ended in, to be applied on the next pass -/
  reply : Option (Reply σ) := none
  /-- a failure of deferred work that was answered already -/
  error : Option HandlerError := none
  /-- the number of the measurement of this exchange -/
  measurement : Option Nat := none

namespace Exchange

variable {σ : Type}

/-- The exchange of a request that has just come in: an empty response with status 200. -/
def fresh (request : Request) (route : Option (Route σ)) : Exchange σ := { request, route }

def status (x : Exchange σ) : Status := x.response.status

def setStatus (x : Exchange σ) (status : Status) : Exchange σ :=
  { x with response := { x.response with status } }

def setResponse (x : Exchange σ) (response : Response) : Exchange σ := { x with response }

/-- Work waits to be run, so this pass does not give the final response. -/
def isDeferred (x : Exchange σ) : Bool := x.pending.isSome

/-- Attaches a measurement; one that is attached already is kept. -/
def attach (x : Exchange σ) (measurement : Nat) : Exchange σ :=
  match x.measurement with
  | none => { x with measurement := some measurement }
  | some _ => x

/-- Takes pending work off. -/
def takePending (x : Exchange σ) : Exchange σ := { x with pending := none }

/-- Turns to a later pass with the given reply, if there is one to apply. -/
def resume (x : Exchange σ) (reply : Option (Reply σ)) : Exchange σ :=
  { x with kind := .resumed, reply }

/-- A status other than 4xx and 5xx becomes 500. -/
def failStatus (x : Exchange σ) : Exchange σ := x.setStatus x.status.orServerError

end Exchange

end TimedHttp
