import TimedHttp.Failure
import TimedHttp.Http.Request
import TimedHttp.Http.Response

/-!
# Work and replies

A handler answers a request by some work. Work may change the state of the application, and ends in
a response, an error, a crash, or further work that is to run later. It is a finite tree, so a
request defers finitely often (`Work.deferrals`).
-/

namespace TimedHttp

/-- **Work** of a handler over an application with state in `σ`. -/
inductive Work (σ : Type) where
  /-- changes the state of the application and goes on -/
  | touch (change : σ → σ) (rest : Work σ)
  | answer (response : Response)
  | fail (error : HandlerError)
  /-- leaves the rest to be run later -/
  | defer (later : Work σ)
  | crash (message : String)

/-- **Reply**: what work ended in, unless it crashed. -/
inductive Reply (σ : Type) where
  | ready (result : Except HandlerError Response)
  | deferred (later : Work σ)

namespace Work

variable {σ : Type}

/-- Runs work up to its end: the state it leaves, and the reply or the message of a crash. -/
def run : Work σ → σ → σ × Except String (Reply σ)
  | touch change rest, s => rest.run (change s)
  | answer response, s => (s, .ok (.ready (.ok response)))
  | fail error, s => (s, .ok (.ready (.error error)))
  | defer later, s => (s, .ok (.deferred later))
  | crash message, s => (s, .error message)

/-- How often the work defers. -/
def deferrals : Work σ → Nat
  | touch _ rest => rest.deferrals
  | defer later => later.deferrals + 1
  | _ => 0

/-- The work behind `n` deferrals. -/
def deferred (work : Work σ) : Nat → Work σ
  | 0 => work
  | n + 1 => defer (work.deferred n)

end Work

/-- How often the work of a reply defers, counting the reply itself. -/
def Reply.deferrals {σ : Type} : Reply σ → Nat
  | ready _ => 0
  | deferred later => later.deferrals + 1

/-- **Handler**: the work for each request. -/
abbrev Handler (σ : Type) := Request → Work σ

end TimedHttp
