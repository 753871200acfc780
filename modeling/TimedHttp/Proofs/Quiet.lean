import TimedHttp.Proofs.Passes

/-!
# Steps that leave measurements alone

Most of what happens to a request concerns no sample: stages are entered and left, middlewares take
their turns, the handler is called, deferred work is run, errors are answered. All these steps only
change the state of the application, settle response sides, and add entries to the journal.

## Main statements

* `Service.Quiet` — the relation between the services before and after such a step
* `Chain.quiet_endpoint`, `Passage.quiet_take` — the steps of a pass
* `Chain.quiet_run_custom` — a pass through middlewares
* `Passage.runWork_cases`, `Passage.answerError_eq` — the steps between passes, as a whole
-/

namespace TimedHttp

variable {σ : Type}

/-- **Quiet step**: only the state of the application may have changed, and what is settled early
may have become more; and every entry that the journal gained satisfies `P`. -/
def Service.Quiet (P : Entry → Prop) (s t : Service σ) : Prop :=
  ∃ state early entries, s.early.Le early ∧ (∀ e ∈ entries, P e) ∧
    t = { s with state, early, journal := s.journal ++ entries }

namespace Service.Quiet

variable {P Q : Entry → Prop} {s t u : Service σ}

theorem refl (s : Service σ) : s.Quiet P s :=
  ⟨s.state, s.early, [], .refl _, List.forall_mem_nil _, by simp⟩

theorem trans (hst : s.Quiet P t) (htu : t.Quiet P u) : s.Quiet P u := by
  obtain ⟨state, early, entries, hle, he, rfl⟩ := hst
  obtain ⟨state', early', entries', hle', he', rfl⟩ := htu
  refine ⟨state', early', entries ++ entries', hle.trans hle', fun e h => ?_, by simp⟩
  exact (List.mem_append.mp h).elim (he e) (he' e)

theorem mono (h : s.Quiet P t) (hPQ : ∀ e, P e → Q e) : s.Quiet Q t := by
  obtain ⟨state, early, entries, hle, he, rfl⟩ := h
  exact ⟨state, early, entries, hle, fun e hm => hPQ e (he e hm), rfl⟩

/-- Nothing is settled, and the journal gains these entries. -/
theorem told (s : Service σ) (state : σ) {entries : List Entry} (h : ∀ e ∈ entries, P e) :
    s.Quiet P { s with state, journal := s.journal ++ entries } :=
  ⟨state, s.early, entries, .refl _, h, rfl⟩

theorem note (s : Service σ) {e : Entry} (h : P e) : s.Quiet P (s.note e) :=
  .told s s.state fun _ he => List.mem_singleton.mp he ▸ h

theorem setState (s : Service σ) (state : σ) : s.Quiet P { s with state } :=
  ⟨state, s.early, [], .refl _, List.forall_mem_nil _, by simp⟩

theorem measurements (h : s.Quiet P t) : t.measurements = s.measurements := by
  obtain ⟨state, early, entries, -, -, rfl⟩ := h
  rfl

theorem early (h : s.Quiet P t) : s.early.Le t.early := by
  obtain ⟨state, early, entries, hle, -, rfl⟩ := h
  exact hle

end Service.Quiet

/-- The entry stands between the beginning of a pass and its end. -/
def Entry.IsInner (e : Entry) : Prop :=
  (∀ kind, e ≠ .passBegan kind) ∧ ∀ ending, e ≠ .passEnded ending

/-! ## The steps of a pass -/

theorem Passage.quiet_take {P : Entry → Prop} {α : Type} (p : Passage σ) (turn : Turn σ α) :
    p.service.Quiet P (p.take turn).service :=
  ⟨turn.state, p.service.early.settleAll turn.settled, [], p.service.early.le_settleAll _,
    List.forall_mem_nil _, by simp [take]⟩

namespace Chain

/-- The entries of the end of the chain. -/
def IsEndEntry (e : Entry) : Prop := e = .endReached ∨ e = .handlerCalled

theorem service_applyReply (p : Passage σ) (reply : Reply σ) :
    (applyReply p reply).1.service = p.service := by
  match reply with
  | .ready (.ok _) => rfl
  | .ready (.error _) => rfl
  | .deferred _ => rfl

theorem quiet_callHandler (p : Passage σ) :
    p.service.Quiet IsEndEntry (callHandler p).1.service := by
  simp only [callHandler]
  split
  next => exact .refl _
  next route _ =>
    have hcalled := Service.Quiet.note (P := IsEndEntry) p.service (.inr rfl)
    split
    next reply _ =>
      rw [service_applyReply]
      exact hcalled.trans (.setState _ _)
    next => exact hcalled.trans (.setState _ _)

theorem quiet_endpoint (p : Passage σ) :
    p.service.Quiet IsEndEntry (endpoint p).1.service := by
  have hreached := Service.Quiet.note (P := IsEndEntry) p.service (.inl rfl)
  simp only [endpoint]
  split
  next => exact hreached.trans (quiet_callHandler (p.note .endReached))
  next =>
    split
    next => exact hreached
    next =>
      rw [service_applyReply]
      exact hreached

theorem quiet_firstTurn {P : Entry → Prop} (position : Nat) (middleware : Middleware σ)
    (p : Passage σ) (h : P (.layerEntered position)) :
    p.service.Quiet P (firstTurn position middleware p).service :=
  (Service.Quiet.note p.service h).trans
    ((p.note (.layerEntered position)).quiet_take (middleware p.sight))

/-- **Middlewares leave measurements alone**: in a pass through them, the journal tells only which
stages were entered and left, and what was done at the end. -/
theorem quiet_run_custom {P : Entry → Prop} (position : Nat) (layers : List (Layer σ))
    (p : Passage σ) (hend : ∀ e, IsEndEntry e → P e) (hentered : ∀ i, P (.layerEntered i))
    (hleft : ∀ i ending, P (.layerLeft i ending)) (h : ∀ layer ∈ layers, layer.isTiming = false) :
    p.service.Quiet P (run position layers p).1.service := by
  revert h
  refine run_rec
    (motive := fun _ layers p q _ => (∀ layer ∈ layers, layer.isTiming = false) →
      p.service.Quiet P q.service) ?nil ?timing ?stop ?proceed position layers p
  case nil =>
    intro _ p _
    exact (quiet_endpoint p).mono hend
  case timing =>
    intro _ layer _ _ _ _ _ h
    exact nomatch h _ List.mem_cons_self
  case stop =>
    intro position middleware _ p ending _ _
    exact (quiet_firstTurn position middleware p (hentered _)).trans (.note _ (hleft _ _))
  case proceed =>
    intro position middleware _ p after q ending _ ih h
    have hinner := ih fun layer hl => h layer (List.mem_cons_of_mem _ hl)
    refine (quiet_firstTurn position middleware p (hentered _)).trans (hinner.trans ?_)
    exact (Passage.quiet_take q _).trans (.note _ (hleft _ _))

end Chain

/-! ## The steps between passes -/

namespace Passage

/-- The error that work fails with: its own, or that of a crash. -/
def FailsWith (p : Passage σ) (work : Work σ) (e : HandlerError) : Prop :=
  (work.run p.service.state).2 = .ok (.ready (.error e)) ∨
    ∃ message, (work.run p.service.state).2 = .error message ∧ e = .crashed

/-- **Running deferred work**: either it ended in a reply to be applied on the next pass, or it
failed, and the failure is answered and kept. -/
theorem runWork_cases (p : Passage σ) (work : Work σ) :
    (∃ reply, (work.run p.service.state).2 = .ok reply ∧ (∀ e, reply ≠ .ready (.error e)) ∧
      p.runWork work =
        { service := { p.service with
            state := (work.run p.service.state).1
            journal := p.service.journal ++ [.logged .workStarted, .workRan work.deferrals] }
          exchange := { p.exchange with
            pending := none, kind := .resumed, reply := some reply } }) ∨
    ∃ e status, p.FailsWith work e ∧
      p.runWork work =
        { service := { p.service with
            state := (work.run p.service.state).1
            journal := p.service.journal ++
              [.logged .workStarted, .workRan work.deferrals, .logged (.workFailed e status)] }
          exchange := { p.exchange with
            pending := none, kind := .resumed, reply := none, error := some e
            response := .bare status } } := by
  simp only [runWork]
  split
  next message h =>
    refine .inr ⟨.crashed, HandlerError.crashed.status.getD .internalServerError,
      .inr ⟨message, h, rfl⟩, ?_⟩
    simp [answerFailure, log, note, Service.log, Service.note, Exchange.resume,
      Exchange.setResponse, Exchange.takePending]
  next e h =>
    refine .inr ⟨e, e.status.getD .internalServerError, .inl h, ?_⟩
    simp [answerFailure, log, note, Service.log, Service.note, Exchange.resume,
      Exchange.setResponse, Exchange.takePending]
  next reply hreply h =>
    refine .inl ⟨reply, h, hreply, ?_⟩
    simp [log, note, Service.log, Service.note, Exchange.resume, Exchange.takePending]

/-- Deferred work changes neither the route nor the measurement, and settles nothing. -/
theorem runWork_keeps (p : Passage σ) (work : Work σ) :
    (p.runWork work).exchange.route = p.exchange.route ∧
      (p.runWork work).exchange.measurement = p.exchange.measurement ∧
      (p.runWork work).service.measurements = p.service.measurements ∧
      (p.runWork work).service.early = p.service.early := by
  rcases p.runWork_cases work with ⟨reply, -, -, heq⟩ | ⟨e, status, -, heq⟩
  · rw [heq]
    exact ⟨rfl, rfl, rfl, rfl⟩
  · rw [heq]
    exact ⟨rfl, rfl, rfl, rfl⟩

/-- **Answering an error**: a bare response with a status that says so, nothing left pending, and
the measurement abandoned. -/
theorem answerError_eq (p : Passage σ) (e : ChainError) :
    ∃ dropped : List Event, (∀ event ∈ dropped, event = .workDropped) ∧
      p.answerError e =
        let told : Service σ := { p.service with
          journal := p.service.journal ++
            .logged (.requestFailed e p.exchange.status.orServerError) ::
              dropped.map .logged }
        { service := p.exchange.measurement.elim told told.abandon
          exchange := { p.exchange with
            response := .bare p.exchange.status.orServerError, pending := none } } := by
  by_cases hd : p.exchange.isDeferred
  · refine ⟨[.workDropped], by simp, ?_⟩
    cases hm : p.exchange.measurement <;>
      simp_all [answerError, log, Service.log, Service.note, Exchange.setResponse,
        Exchange.takePending, Exchange.isDeferred]
  · refine ⟨[], by simp, ?_⟩
    cases hm : p.exchange.measurement <;>
      simp_all [answerError, log, Service.log, Service.note, Exchange.setResponse,
        Exchange.takePending, Exchange.isDeferred]

theorem measurement_answerError (p : Passage σ) (e : ChainError) :
    (p.answerError e).exchange.measurement = p.exchange.measurement := by
  obtain ⟨dropped, -, heq⟩ := p.answerError_eq e
  rw [heq]

end Passage

end TimedHttp
