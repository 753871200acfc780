import TimedHttp.Dispatch.Chain
import TimedHttp.Route.Table

/-!
# Applications

An application is a route table and a chain of layers. A request passes through the chain; while a
pass leaves work deferred, the work is run and the exchange passes again with what it ended in. An
error that leaves the chain ends the exchange: it is answered with a bare response, work still
deferred is dropped, and a measurement still running is stopped without being recorded.

## Main definitions

* `App.new`, `App.layer` — building an application
* `App.begin` — the exchange of a request
* `App.pass`, `App.passes?` — one pass, and passes until the exchange has ended
* `App.run?`, `App.handle` — the whole way of a request
-/

namespace TimedHttp

/-- **Application**; the first layer is the outermost. -/
structure App (σ : Type) where
  routes : RouteTable σ := []
  layers : List (Layer σ) := []

namespace Passage

variable {σ : Type}

/-- Answers an error that left the chain. A status of 4xx or 5xx is kept, any other becomes 500. -/
def answerError (p : Passage σ) (e : ChainError) : Passage σ :=
  let status := p.exchange.status.orServerError
  let p := p.log (.requestFailed e status)
  let p := { p with exchange := p.exchange.setResponse (.bare status) }
  let p := if p.exchange.isDeferred then p.log .workDropped else p
  let p := { p with exchange := p.exchange.takePending }
  match p.exchange.measurement with
  | none => p
  | some measurement => { p with service := p.service.abandon measurement }

/-- Answers a failure of deferred work, and keeps it on the exchange for the next pass. -/
def answerFailure (p : Passage σ) (e : HandlerError) : Passage σ :=
  let status := e.status.getD .internalServerError
  let p := p.log (.workFailed e status)
  let x := p.exchange.setResponse (.bare status)
  { p with exchange := { x with error := some e }.resume none }

/-- Runs deferred work and turns to the next pass. A crash of the work counts as a failure. -/
def runWork (p : Passage σ) (work : Work σ) : Passage σ :=
  let p := { p with exchange := p.exchange.takePending }
  let p := (p.log .workStarted).note (.workRan work.deferrals)
  let (state, reply) := work.run p.service.state
  let p := { p with service := { p.service with state } }
  match reply with
  | .error _ => p.answerFailure .crashed
  | .ok (.ready (.error e)) => p.answerFailure e
  | .ok reply => { p with exchange := p.exchange.resume (some reply) }

end Passage

namespace App

variable {σ : Type}

/-- The application of a route table, without layers. -/
def new (routes : RouteTable σ) : App σ := { routes }

/-- Adds a layer, inside of those there are. -/
def layer (app : App σ) (layer : Layer σ) : App σ := { app with layers := app.layers ++ [layer] }

/-- The exchange of a request: its route, if it matches one, and the path parameters. -/
def begin (app : App σ) (request : Request) : Exchange σ :=
  match app.routes.lookup request.method request.path with
  | some (route, params) => .fresh { request with params } (some route)
  | none => .fresh request none

/-- **What a pass leads to**. -/
inductive PassResult (σ : Type) where
  /-- the exchange has ended, perhaps by a crash with a message -/
  | final (p : Passage σ) (crash : Option String)
  /-- deferred work has run, and another pass follows -/
  | again (p : Passage σ)

/-- One pass through the chain, and the deferred work that it leaves. -/
def pass (app : App σ) (p : Passage σ) : PassResult σ :=
  let (p, ending) := Chain.run 0 app.layers (p.note (.passBegan p.exchange.kind))
  let p := p.note (.passEnded ending)
  match ending with
  | .crashed message => .final p (some message)
  | .returned (.error e) => .final (p.answerError e) none
  | .returned (.ok ()) =>
    match p.exchange.pending with
    | none => .final p none
    | some work => .again (p.runWork work)

/-- Passes through the chain until the exchange has ended, at most so many times: the last passage
and the message of a crash, or nothing if more passes are needed. -/
def passes? (app : App σ) : Nat → Passage σ → Option (Passage σ × Option String)
  | 0, _ => none
  | more + 1, p =>
    match app.pass p with
    | .final p crash => some (p, crash)
    | .again p => passes? app more p

/-- How often the handler of an exchange defers; no request passes more often than once after each
of its deferrals. -/
def deferrals (x : Exchange σ) : Nat :=
  match x.route with
  | none => 0
  | some route => (route.handler x.request).deferrals

/-- All passes of a request: the last passage and the message of a crash. -/
def run? (app : App σ) (request : Request) (service : Service σ) :
    Option (Passage σ × Option String) :=
  let x := app.begin request
  app.passes? (deferrals x + 1) { service, exchange := x }

/-- Handles a request to its end: the response, or the message of a crash. -/
def handle (app : App σ) (request : Request) (service : Service σ) :
    Service σ × Except String Response :=
  match app.run? request service with
  | some (p, none) => (p.service, .ok p.exchange.response)
  | some (p, some message) => (p.service, .error message)
  | none => (service, .ok (app.begin request).response)

end App

end TimedHttp
