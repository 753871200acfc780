import TimedHttp.Proofs.Samples

/-!
# Timing layers change nothing

A timing layer hands on what its inner stages ended in, and leaves the exchange as they left it,
whether registries take, refuse or crash over what they are told, and whatever the tags provider
makes of the exchange. The inner stages find the exchange as the layer found it, with the
measurement attached. The one thing it may change is the status of a failure.

## Main statements

* `Chain.entered_leaves` — what the inner stages begin with
* `TimingLayer.leave_leaves` — what the layer does after them
* `Chain.timing_hands_on` — the layer as a whole, around any inner stages
-/

namespace TimedHttp

variable {σ : Type}

/-- A status of 4xx or 5xx stays, any other becomes 500. -/
theorem Exchange.failStatus_eq (x : Exchange σ) :
    x.failStatus =
      if x.status.isClientError || x.status.isServerError then x
      else x.setStatus .internalServerError := by
  by_cases h : x.status.isClientError || x.status.isServerError
  · rw [failStatus, Status.orServerError, Status.isError, if_pos h, if_pos h]
    rfl
  · rw [failStatus, Status.orServerError, Status.isError, if_neg h, if_neg h]

/-- Closing a measurement leaves the state of the application, and the other measurements. -/
theorem TimingLayer.close_leaves (layer : TimingLayer σ) (m : Nat) (x : Exchange σ)
    (failure : Option Failure) (s : Service σ) :
    (layer.close m x failure s).state = s.state ∧
      ∀ n, n ≠ m → (layer.close m x failure s).measurements[n]? = s.measurements[n]? := by
  cases hs : s.running? m with
  | none =>
    rw [close_of_stopped hs]
    exact ⟨rfl, fun n _ => rfl⟩
  | some running =>
    obtain ⟨registries, warnings, elapsed, entries, stopped, -, -, -, hclose⟩ :=
      layer.close_eq x failure (hs.trans rfl : s.running? m = some (running.1, running.2))
    rw [hclose]
    exact ⟨rfl, fun n hn => List.getElem?_set_ne hn.symm⟩

/-- **After its inner stages**, the layer changes the exchange of a failure only, in its status. -/
theorem TimingLayer.leave_leaves (layer : TimingLayer σ) (m : Nat) (p : Passage σ)
    (ending : Ending) :
    (layer.leave m p ending).exchange =
        (match ending with
          | .returned (.error _) => p.exchange.failStatus
          | _ => p.exchange) ∧
      (layer.leave m p ending).service.state = p.service.state ∧
      ∀ n, n ≠ m →
        (layer.leave m p ending).service.measurements[n]? = p.service.measurements[n]? := by
  match ending with
  | .crashed message => exact ⟨rfl, rfl, fun n _ => rfl⟩
  | .returned (.error e) =>
    obtain ⟨hstate, hothers⟩ :=
      layer.close_leaves m p.exchange.failStatus (some (.ofError e)) p.service
    exact ⟨rfl, hstate, hothers⟩
  | .returned (.ok ()) =>
    by_cases hpending : p.exchange.pending = none
    · rw [leave_of_finished hpending]
      obtain ⟨hstate, hothers⟩ :=
        layer.close_leaves m p.exchange (p.exchange.error.map .captured) p.service
      exact ⟨rfl, hstate, hothers⟩
    · rw [leave_of_deferred hpending]
      exact ⟨rfl, rfl, fun n _ => rfl⟩

namespace Chain

/-- **Before its inner stages**, the layer attaches the measurement and changes nothing else. -/
theorem entered_leaves (position : Nat) (layer : TimingLayer σ) (p : Passage σ) :
    (entered position layer p).exchange =
        { p.exchange with measurement := some (measured position layer p) } ∧
      (entered position layer p).service.state = p.service.state ∧
      ∀ n, n ≠ measured position layer p →
        (entered position layer p).service.measurements[n]? = p.service.measurements[n]? := by
  cases hm : p.exchange.measurement with
  | some m =>
    rw [entered_of_some _ _ hm, measured_of_some _ _ hm, ← hm]
    exact ⟨rfl, rfl, fun n _ => rfl⟩
  | none =>
    obtain ⟨registries, events, -, -, heq⟩ := entered_of_none position layer hm
    rw [heq, measured_of_none _ _ hm]
    refine ⟨rfl, rfl, fun n hn => ?_⟩
    -- the new measurement stands behind all that were there
    rcases Nat.lt_or_gt_of_ne hn with h | h
    · exact List.getElem?_append_left h
    · refine (List.getElem?_eq_none ?_).trans (List.getElem?_eq_none (Nat.le_of_lt h)).symm
      rw [List.length_append]
      exact h

/-- **A timing layer hands on what its inner stages ended in**, for any exchange and inner stages,
any registries and any tags provider. It crashes only if they crash. It leaves the exchange as they
left it, except that an error with a status other than 4xx and 5xx gets the status 500; the state of
the application and the measurements of other exchanges are none of its business. -/
theorem timing_hands_on (position : Nat) (layer : TimingLayer σ) (rest : List (Layer σ))
    (p : Passage σ) :
    let within := entered position layer p
    let inner := run (position + 1) rest within
    let outer := run position (.timing layer :: rest) p
    (within.exchange = { p.exchange with measurement := some (measured position layer p) } ∧
      within.service.state = p.service.state) ∧
    outer.2 = inner.2 ∧
    outer.1.exchange =
      (match inner.2 with
        | .returned (.error _) =>
          if inner.1.exchange.status.isClientError || inner.1.exchange.status.isServerError then
            inner.1.exchange
          else inner.1.exchange.setStatus .internalServerError
        | _ => inner.1.exchange) ∧
    outer.1.service.state = inner.1.service.state ∧
    (∀ n, n ≠ measured position layer p →
      within.service.measurements[n]? = p.service.measurements[n]? ∧
        outer.1.service.measurements[n]? = inner.1.service.measurements[n]?) := by
  intro within inner outer
  obtain ⟨hattached, hstate, hothers⟩ := entered_leaves position layer p
  obtain ⟨hexchange, hstate', hothers'⟩ :=
    layer.leave_leaves (measured position layer p) inner.1 inner.2
  have houter : outer =
      ((layer.leave (measured position layer p) inner.1 inner.2).note
        (.layerLeft position inner.2), inner.2) := run_timing position layer rest p
  rw [houter]
  refine ⟨⟨hattached, hstate⟩, rfl, hexchange.trans ?_, hstate',
    fun n hn => ⟨hothers n hn, hothers' n hn⟩⟩
  split
  next => exact inner.1.exchange.failStatus_eq
  next => rfl

end Chain

/-! ## Everything crashes but the middleware -/

namespace Exports

/-- A timing layer whose tags provider crashes. -/
def untagged : TimingLayer Unit := { registry := 0, tags := fun _ _ _ => .error "no tags" }

/-- The middleware that raises a wrapped error. -/
def raising : Middleware Unit := fun sight =>
  { state := sight.state
    next := .stop (.returned (.error
      (.nested (.handler { className := "Denied", message := "closed" })))) }

/-- A service whose registry crashes over each call. -/
def crashing : Service Unit :=
  { state := ()
    registries := [.guarded
      { onStart := fun _ _ => some "down", onRecord := fun _ _ _ _ => .crashed "down" } [] {}] }

/-- The error comes out as it was raised, and the status 200 becomes 500. -/
theorem error_handed_on :
    let outer := Chain.run 0 [.timing untagged, .custom raising]
      { service := crashing, exchange := .fresh request none }
    outer.2 =
      .returned (.error (.nested (.handler { className := "Denied", message := "closed" }))) ∧
      outer.1.exchange.response = .bare .internalServerError := by
  intro outer
  obtain ⟨-, hending, hexchange, -⟩ := Chain.timing_hands_on 0 untagged [.custom raising]
    { service := crashing, exchange := .fresh request none }
  refine ⟨hending.trans rfl, ?_⟩
  exact (congrArg Exchange.response hexchange).trans rfl

end Exports

end TimedHttp
