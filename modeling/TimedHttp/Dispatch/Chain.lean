import TimedHttp.Timing.Layer

/-!
# The chain

An exchange passes through a list of layers to its end, where the handler is called, or where the
reply of deferred work is applied. A layer is a timing layer or a middleware.

A middleware takes one turn before the inner stages, in which it may end the pass by itself, and
one turn after them, however they ended: a crash passes outward until a middleware contains it. In
each turn it sees the exchange and changes it only by edits; it may keep state of its own in that of
the application; and of any measurement it has met it may settle the response side.

## Main definitions

* `Middleware`, `Layer` — the stages
* `Chain.endpoint` — the end of the chain
* `Chain.run` — one pass
-/

namespace TimedHttp

/-- **What a middleware sees** in a turn. What was settled early is part of the measurements. -/
structure Sight (σ : Type) where
  exchange : Exchange σ
  state : σ
  measurements : List Measurement

/-- The measurement of the exchange. -/
def Sight.measurement? {σ : Type} (s : Sight σ) : Option Measurement :=
  s.exchange.measurement.bind (s.measurements[·]?)

/-- **Edit** of an exchange. -/
inductive Edit where
  | setStatus (status : Status)
  | setResponse (response : Response)
  /-- attaches a measurement, unless there is one -/
  | attach (measurement : Nat)
  deriving DecidableEq

def Edit.apply {σ : Type} (x : Exchange σ) : Edit → Exchange σ
  | setStatus status => x.setStatus status
  | setResponse response => x.setResponse response
  | attach measurement => x.attach measurement

/-- **Turn** of a middleware: edits, response sides that it settles, the state it leaves, and what
comes next. -/
structure Turn (σ α : Type) where
  edits : List Edit := []
  /-- response sides by the number of the measurement -/
  settled : List (Nat × ExchangeResult) := []
  state : σ
  next : α

/-- **Move** of a middleware in its first turn. -/
inductive Move (σ : Type) where
  /-- ends the pass here -/
  | stop (ending : Ending)
  /-- calls the inner stages, and takes a second turn with their ending -/
  | proceed (after : Sight σ → Ending → Turn σ Ending)

/-- **Middleware**: its first turn on each pass. -/
abbrev Middleware (σ : Type) := Sight σ → Turn σ (Move σ)

/-- **Layer** of the chain. -/
inductive Layer (σ : Type) where
  | timing (layer : TimingLayer σ)
  | custom (middleware : Middleware σ)

namespace Passage

variable {σ : Type}

def sight (p : Passage σ) : Sight σ :=
  { exchange := p.exchange, state := p.service.state, measurements := p.service.seen }

/-- Applies the edits of a turn, settles what it settles and keeps the state it leaves. -/
def take {α : Type} (p : Passage σ) (turn : Turn σ α) : Passage σ :=
  { service := { p.service with
      state := turn.state, early := p.service.early.settleAll turn.settled }
    exchange := turn.edits.foldl Edit.apply p.exchange }

end Passage

namespace Chain

variable {σ : Type}

/-- Applies a reply: a response is set, an error sets the status to which it is mapped and is
raised, and further work is left pending. -/
def applyReply (p : Passage σ) : Reply σ → Passage σ × Ending
  | .ready (.ok response) =>
    ({ p with exchange := p.exchange.setResponse response }, .returned (.ok ()))
  | .ready (.error e) =>
    let x := match e.status with
      | some status => p.exchange.setStatus status
      | none => p.exchange
    ({ p with exchange := x }, .returned (.error (.handler e)))
  | .deferred later =>
    ({ p with exchange := { p.exchange with pending := some later } }, .returned (.ok ()))

/-- Calls the handler of the route; without a route the response is a 404. -/
def callHandler (p : Passage σ) : Passage σ × Ending :=
  match p.exchange.route with
  | none => ({ p with exchange := p.exchange.setResponse (.bare .notFound) }, .returned (.ok ()))
  | some route =>
    let p := p.note .handlerCalled
    let (state, reply) := (route.handler p.exchange.request).run p.service.state
    let p := { p with service := { p.service with state } }
    match reply with
    | .ok reply => applyReply p reply
    | .error message => (p, .crashed message)

/-- The end of the chain: the handler on the first pass, the reply at hand on a later one. Without
a reply the response is there already. -/
def endpoint (p : Passage σ) : Passage σ × Ending :=
  let p := p.note .endReached
  match p.exchange.kind with
  | .request => callHandler p
  | .resumed =>
    match p.exchange.reply with
    | none => (p, .returned (.ok ()))
    | some reply => applyReply { p with exchange := { p.exchange with reply := none } } reply

/-- One pass through the layers, the first of which stands at the given position. -/
def run : Nat → List (Layer σ) → Passage σ → Passage σ × Ending
  | _, [], p => endpoint p
  | position, .timing layer :: rest, p =>
    let (measurement, p) := layer.enter (p.note (.layerEntered position))
    let (p, ending) := run (position + 1) rest (p.note (.measuring position measurement))
    ((layer.leave measurement p ending).note (.layerLeft position ending), ending)
  | position, .custom middleware :: rest, p =>
    let p := p.note (.layerEntered position)
    let turn := middleware p.sight
    let p := p.take turn
    match turn.next with
    | .stop ending => (p.note (.layerLeft position ending), ending)
    | .proceed after =>
      let (p, ending) := run (position + 1) rest p
      let turn := after p.sight ending
      ((p.take turn).note (.layerLeft position turn.next), turn.next)

end Chain

end TimedHttp
