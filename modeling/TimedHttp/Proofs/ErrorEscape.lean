import TimedHttp.Proofs.ExchangeStates
import TimedHttp.Proofs.Samples

/-!
# An error that leaves the chain

It ends the request, whoever raised it, on whatever pass, and whatever it leaves behind: the answer
is bare and says that the request failed, work that is pending is dropped, and the measurement of
the exchange is stopped, if it still runs, without being recorded.

## Main statements

* `Passage.aftermath` — what such an error adds to the journal
* `Passage.answerError_eq_aftermath` — what it does to the passage
* `App.error_ends_request` — what it means for the request
-/

namespace TimedHttp

variable {σ : Type}

/-- The measurement as it is once its sample has been taken out. -/
def Measurement.finished (m : Measurement) : Measurement := { m with sample := none }

/-- **Abandoning finishes the measurement**, whether it still runs or not. -/
theorem Service.getElem?_abandon (s : Service σ) (m : Nat) :
    (s.abandon m).measurements[m]? = s.measurements[m]?.map Measurement.finished := by
  cases hs : s.running? m with
  | none =>
    rw [abandon_of_stopped hs]
    cases hm : s.measurements[m]? with
    | none => rfl
    | some measurement =>
      obtain ⟨sample, a⟩ := measurement
      cases sample with
      | none => rfl
      | some sample => exact nomatch hs.symm.trans (running?_eq_some_iff.mpr hm)
  | some running =>
    obtain ⟨sample, a⟩ := running
    have hm := running?_eq_some_iff.mp hs
    have hlt : m < s.measurements.length := (List.getElem?_eq_some_iff.mp hm).1
    simp only [abandon_eq hs, hm, List.getElem?_set_self hlt, Option.map_some]
    rfl

namespace Passage

/-- The journal tells that work was dropped, if there was some. -/
def dropping (p : Passage σ) : List Entry :=
  if p.exchange.isDeferred then [.logged .workDropped] else []

/-- The journal tells that a sample was stopped, if one was running. -/
def stopping (p : Passage σ) : List Entry :=
  match p.exchange.measurement.bind p.service.running? with
  | none => []
  | some (sample, _) => [.logged .exchangeAbandoned, .sampleStopped sample.registry]

/-- **What an error leaves in the journal** when it has left the chain: that the request failed, and
perhaps that work was dropped, and that a sample was stopped. -/
def aftermath (p : Passage σ) (e : ChainError) : List Entry :=
  .logged (.requestFailed e p.exchange.status.orServerError) :: (p.dropping ++ p.stopping)

/-- No pass begins there, no work is run, and nothing is recorded. -/
theorem eq_of_mem_aftermath {p : Passage σ} {e : ChainError} {entry : Entry}
    (h : entry ∈ p.aftermath e) :
    (∃ event, entry = .logged event) ∨ ∃ registry, entry = .sampleStopped registry := by
  simp only [aftermath, List.mem_cons, List.mem_append] at h
  rcases h with rfl | h | h
  · exact .inl ⟨_, rfl⟩
  · rw [dropping] at h
    split at h
    · exact .inl ⟨_, List.mem_singleton.mp h⟩
    · cases h
  · rw [stopping] at h
    split at h
    · cases h
    · simp only [List.mem_cons, List.not_mem_nil, or_false] at h
      rcases h with rfl | rfl
      · exact .inl ⟨_, rfl⟩
      · exact .inr ⟨_, rfl⟩

/-- The service has been told that the request failed, and whether work was dropped. -/
def toldOfError (p : Passage σ) (e : ChainError) : Service σ :=
  { p.service with
    journal := p.service.journal ++
      .logged (.requestFailed e p.exchange.status.orServerError) :: p.dropping }

theorem answerError_eq_told (p : Passage σ) (e : ChainError) :
    p.answerError e =
      { service := p.exchange.measurement.elim (p.toldOfError e) (p.toldOfError e).abandon
        exchange := { p.exchange with
          response := .bare p.exchange.status.orServerError, pending := none } } := by
  by_cases hd : p.exchange.isDeferred <;> cases hm : p.exchange.measurement <;>
    simp_all [answerError, toldOfError, dropping, log, Service.log, Service.note,
      Exchange.setResponse, Exchange.takePending, Exchange.isDeferred]

/-- **Answering an error**, as a whole: the journal is told, the measurement of the exchange is
finished, and no registry is called. -/
theorem answerError_eq_aftermath (p : Passage σ) (e : ChainError) :
    ∃ (readings : Nat) (measurements : List Measurement),
      p.answerError e =
        { service := { p.service with
            readings, measurements, journal := p.service.journal ++ p.aftermath e }
          exchange := { p.exchange with
            response := .bare p.exchange.status.orServerError, pending := none } } ∧
      ∀ m, p.exchange.measurement = some m →
        measurements[m]? = p.service.measurements[m]?.map Measurement.finished := by
  rw [answerError_eq_told]
  cases hm : p.exchange.measurement with
  | none =>
    refine ⟨p.service.readings, p.service.measurements, ?_, nofun⟩
    simp [toldOfError, aftermath, stopping, hm]
  | some m =>
    have hfinished := (p.toldOfError e).getElem?_abandon m
    refine ⟨((p.toldOfError e).abandon m).readings, ((p.toldOfError e).abandon m).measurements,
      ?_, fun n hn => Option.some.inj hn ▸ hfinished⟩
    cases hs : p.service.running? m with
    | none =>
      have htold : (p.toldOfError e).running? m = none := hs
      rw [Option.elim_some, Service.abandon_of_stopped htold]
      simp [toldOfError, aftermath, stopping, hm, hs]
    | some running =>
      have htold : (p.toldOfError e).running? m = some (running.1, running.2) := hs
      rw [Option.elim_some, Service.abandon_eq htold]
      simp [toldOfError, aftermath, stopping, hm, hs]

end Passage

namespace App

variable {app : App σ} {request : Request} {service : Service σ} {n : Nat} {p : Passage σ}

/-- **An error that leaves the chain ends the request.** No pass follows, and no work is run, not
even what this pass left pending. The response has no header fields and no body; its status is that
of the exchange if it is 4xx or 5xx, and 500 otherwise. The measurement of the exchange is finished,
and no registry is called for it. -/
theorem error_ends_request {e : ChainError} (h : app.Begins request service n p)
    (he : (app.ended p).2 = .returned (.error e)) :
    let left := (app.ended p).1
    let status :=
      if left.exchange.status.isClientError || left.exchange.status.isServerError then
        left.exchange.status
      else .internalServerError
    (400 ≤ status.code ∧ status.code ≤ 599) ∧
    (∀ m p', app.Begins request service m p' → m ≤ n) ∧
    ∃ q, app.run? request service = some (q, none) ∧
      app.handle request service = (q.service, .ok { status, header := [], body := [] }) ∧
      q.exchange.pending = none ∧
      q.service.state = left.service.state ∧
      q.service.registries = left.service.registries ∧
      q.service.journal = left.service.journal ++ left.aftermath e ∧
      (∀ entry ∈ left.aftermath e,
        (∃ event, entry = .logged event) ∨ ∃ registry, entry = .sampleStopped registry) ∧
      ∀ m, left.exchange.measurement = some m →
        q.service.measurements[m]? = left.service.measurements[m]?.map Measurement.finished := by
  intro left status
  have hstatus : status = left.exchange.status.orServerError := rfl
  have hpass : app.pass p = .final (left.answerError e) none :=
    pass_eq_final_iff.mpr (.inr (.inl ⟨e, he, rfl, rfl⟩))
  have hrun : app.run? request service = some (left.answerError e, none) :=
    run?_eq_some_iff.mpr ⟨n, p, h, hpass⟩
  obtain ⟨readings, measurements, heq, hstopped⟩ := left.answerError_eq_aftermath e
  refine ⟨?_, ?_, left.answerError e, hrun, ?_, ?_⟩
  · rw [← Status.isError_iff, hstatus]
    exact Status.isError_orServerError _
  · refine fun m p' hp' => h.le_of_last (fun p'' hagain => ?_) hp'
    exact nomatch hpass.symm.trans hagain
  · rw [handle_of_run? hrun, heq, hstatus]
    rfl
  · rw [heq]
    exact ⟨rfl, rfl, rfl, rfl, fun entry => Passage.eq_of_mem_aftermath, hstopped⟩

end App

/-! ## A middleware that does not wait -/

/-- The middleware that raises an error if its inner stages leave work deferred. -/
def Middleware.impatient : Middleware σ := fun sight =>
  { state := sight.state
    next := .proceed fun sight ending =>
      { state := sight.state
        next :=
          if sight.exchange.isDeferred then
            .returned (.error (.handler { className := "GatewayGaveUp", message := "not waiting" }))
          else ending } }

namespace Exports

/-- A timing layer inside of a middleware that does not wait. -/
def hasty : App Unit :=
  { routes := routes (.answer (.bare .created))
    layers := [.custom .impatient, .timing { registry := 0 }] }

/-- The middleware raises its error on the first pass: the deferred work is dropped, the response is
a bare 500, and the sample that still runs is stopped. -/
theorem hasty_gives_up :
    ∃ e, (hasty.ended (hasty.start request { state := () })).2 = .returned (.error e) ∧
      (hasty.handle request { state := () }).2 = .ok (.bare .internalServerError) ∧
      (∀ m p, hasty.Begins request { state := () } m p → m = 0) ∧
      ∃ q, hasty.run? request { state := () } = some (q, none) ∧
        q.service.measurements.map Measurement.isFinished = [true] := by
  obtain ⟨e, he⟩ : ∃ e, (hasty.ended (hasty.start request { state := () })).2 =
      .returned (.error e) := ⟨_, rfl⟩
  obtain ⟨-, hlast, q, hrun, hhandle, -⟩ := App.error_ends_request .first he
  refine ⟨e, he, ?_, fun m p hp => Nat.le_zero.mp (hlast m p hp), q, hrun, ?_⟩
  · rw [hhandle]
    rfl
  · obtain ⟨rfl, -⟩ := Prod.mk.inj (Option.some.inj hrun.symm)
    rfl

end Exports

end TimedHttp
