/-!
# Life of a server

A server accepts connections and runs a task for each, until it sees the signal to stop. From then
on it accepts nothing, waits for its tasks, and returns when the last one has ended. A failure to
accept, and a task that ends, in whatever way, concern no other connection.

The signal is given at one time and seen at a later one. Whenever the server looks, it looks for the
signal first; but between two looks the signal may be given, and a connection accepted after that.

## Main definitions

* `ServerState` — connections that wait, tasks, and what has happened to them
* `Happening`, `ServerState.step?` — what may happen next, and what comes of it
* `ServerState.run?` — a sequence of happenings
-/

namespace TimedHttp

/-- **Phase** of a server. -/
inductive Phase where
  | accepting
  /-- the signal was seen; tasks may still run -/
  | draining
  | returned
  deriving DecidableEq

/-- **Task** of an accepted connection. -/
structure ServerTask where
  connection : Nat
  ended : Bool := false
  deriving DecidableEq

/-- **State of a server**. -/
structure ServerState where
  phase : Phase := .accepting
  /-- the signal to stop was given, whether or not the server has seen it -/
  signalled : Bool := false
  /-- connections not accepted yet, the oldest first -/
  waiting : List Nat := []
  tasks : List ServerTask := []
  /-- all connections accepted so far -/
  accepted : List Nat := []
  /-- all connections whose task has run to its end, normally or by a crash -/
  completed : List Nat := []
  deriving DecidableEq

/-- **What may happen** to a server. -/
inductive Happening where
  /-- a client connects -/
  | connects (connection : Nat)
  /-- the signal to stop is given -/
  | signal
  /-- a task runs to its end -/
  | ends (connection : Nat) (crashed : Bool)
  /-- the server accepts the oldest waiting connection -/
  | accepts
  | acceptFails
  /-- the server takes notice of a task that has ended -/
  | joins (connection : Nat)
  /-- the server sees the signal -/
  | seesSignal
  /-- the server returns -/
  | returns
  deriving DecidableEq

namespace ServerState

/-- What comes of a happening; nothing if it cannot happen. What stops the server from accepting is
not that the signal was given, but that the server has seen it. -/
def step? (s : ServerState) : Happening → Option ServerState
  | .connects c => some { s with waiting := s.waiting ++ [c] }
  | .signal => some { s with signalled := true }
  | .ends c _ =>
    if { connection := c } ∈ s.tasks then
      some { s with
        tasks := s.tasks.map fun t => if t.connection = c then { t with ended := true } else t
        completed := s.completed ++ [c] }
    else none
  | .accepts =>
    match s.phase, s.waiting with
    | .accepting, c :: rest =>
      some { s with
        waiting := rest, tasks := s.tasks ++ [{ connection := c }], accepted := s.accepted ++ [c] }
    | _, _ => none
  | .acceptFails => if s.phase = .accepting then some s else none
  | .joins c =>
    if s.phase ≠ .returned ∧ { connection := c, ended := true } ∈ s.tasks then
      some { s with tasks := s.tasks.erase { connection := c, ended := true } }
    else none
  | .seesSignal =>
    if s.phase = .accepting ∧ s.signalled then some { s with phase := .draining } else none
  | .returns =>
    if s.phase = .draining ∧ s.tasks = [] then some { s with phase := .returned } else none

/-- What comes of a sequence of happenings. -/
def run? (s : ServerState) (happenings : List Happening) : Option ServerState :=
  happenings.foldlM step? s

/-- One connection comes, is served and is gone. -/
def visit (connection : Nat) (crashed : Bool) : List Happening :=
  [.connects connection, .accepts, .ends connection crashed, .joins connection]

/-- The server is told to stop and does. -/
def stopping : List Happening := [.signal, .seesSignal, .returns]

end ServerState

end TimedHttp
