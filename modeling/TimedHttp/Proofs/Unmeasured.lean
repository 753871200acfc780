import TimedHttp.Proofs.ErrorEscape
import TimedHttp.Proofs.Transparency

/-!
# Without the measurement

What remains of a passage if one looks neither at its measurement nor at registries, clock and
journal. The end of the chain, the work that is run and the answers to failures need no more than
that, and a timing layer leaves it as it is, but for the status of a failure.

## Main statements

* `Passage.bare` — what remains
* `Chain.bare_entered`, `Chain.bare_leave` — a timing layer
* `Chain.bare_endpoint`, `Passage.bare_runWork`, `Passage.bare_answerError` — the other steps
-/

namespace TimedHttp

variable {σ : Type}

@[simp]
theorem Status.orServerError_orServerError (s : Status) :
    s.orServerError.orServerError = s.orServerError := by
  simp only [orServerError.eq_1 s.orServerError, isError_orServerError, if_true]

namespace Exchange

/-- The exchange without its measurement. -/
def unmeasured (x : Exchange σ) : Exchange σ := { x with measurement := none }

@[simp]
theorem failStatus_failStatus (x : Exchange σ) : x.failStatus.failStatus = x.failStatus := by
  simp [failStatus, setStatus, status]

end Exchange

namespace Passage

/-- **What remains without the measurement**: the exchange, and the state of the application. -/
def bare (p : Passage σ) : Passage σ :=
  { service := { state := p.service.state }, exchange := p.exchange.unmeasured }

theorem bare_eq_iff {p q : Passage σ} :
    p.bare = q.bare ↔
      p.service.state = q.service.state ∧ p.exchange.unmeasured = q.exchange.unmeasured := by
  simp [bare]

/-- The status of the exchange says that it failed. -/
def failed (p : Passage σ) : Passage σ := { p with exchange := p.exchange.failStatus }

theorem bare_failed (p : Passage σ) : p.failed.bare = p.bare.failed := rfl

@[simp]
theorem failed_failed (p : Passage σ) : p.failed.failed = p.failed := by
  simp [failed]

end Passage

/-! ## Edits -/

theorem Edit.unmeasured_apply (x : Exchange σ) (e : Edit) :
    (e.apply x).unmeasured = (e.apply x.unmeasured).unmeasured := by
  cases e with
  | setStatus | setResponse => rfl
  | attach m =>
    simp only [apply, Exchange.attach, Exchange.unmeasured]
    split <;> rfl

theorem Edit.unmeasured_foldl (edits : List Edit) (x : Exchange σ) :
    (edits.foldl Edit.apply x).unmeasured =
      (edits.foldl Edit.apply x.unmeasured).unmeasured := by
  induction edits generalizing x with
  | nil => rfl
  | cons e edits ih =>
    rw [List.foldl_cons, List.foldl_cons, ih (e.apply x), ih (e.apply x.unmeasured),
      Edit.unmeasured_apply]

theorem Passage.bare_take {α : Type} (p : Passage σ) (turn : Turn σ α) :
    (p.take turn).bare = (p.bare.take turn).bare :=
  bare_eq_iff.mpr ⟨rfl, Edit.unmeasured_foldl turn.edits p.exchange⟩

/-! ## Timing layers -/

namespace Chain

theorem bare_entered (position : Nat) (layer : TimingLayer σ) (p : Passage σ) :
    (entered position layer p).bare = p.bare := by
  obtain ⟨hexchange, hstate, -⟩ := entered_leaves position layer p
  refine Passage.bare_eq_iff.mpr ⟨hstate, ?_⟩
  rw [hexchange]
  rfl

theorem bare_leave (layer : TimingLayer σ) (m : Nat) (p : Passage σ) (ending : Ending) :
    (layer.leave m p ending).bare =
      match ending with
      | .returned (.error _) => p.bare.failed
      | _ => p.bare := by
  obtain ⟨hexchange, hstate, -⟩ := layer.leave_leaves m p ending
  match ending with
  | .crashed _ => rfl
  | .returned (.ok ()) =>
    refine Passage.bare_eq_iff.mpr ⟨hstate, ?_⟩
    rw [hexchange]
  | .returned (.error _) =>
    show _ = p.failed.bare
    refine Passage.bare_eq_iff.mpr ⟨hstate, ?_⟩
    rw [hexchange]
    rfl

/-! ## The other steps -/

theorem bare_applyReply (p : Passage σ) (reply : Reply σ) :
    (applyReply p reply).1.bare = (applyReply p.bare reply).1.bare ∧
      (applyReply p reply).2 = (applyReply p.bare reply).2 := by
  match reply with
  | .ready (.ok response) => exact ⟨rfl, rfl⟩
  | .ready (.error e) => cases hs : e.status <;> simp only [applyReply, hs, and_true] <;> rfl
  | .deferred later => exact ⟨rfl, rfl⟩

/-- **The end of the chain** does not look at the measurement. -/
theorem bare_endpoint (p : Passage σ) :
    (endpoint p).1.bare = (endpoint p.bare).1.bare ∧ (endpoint p).2 = (endpoint p.bare).2 := by
  have hatEnd : p.atEnd.bare = p.bare.atEnd.bare := by
    simp only [Passage.atEnd, Passage.bare, Exchange.unmeasured]
    split <;> rfl
  have hdue : p.exchange.due? = p.bare.exchange.due? := rfl
  rw [endpoint_eq, endpoint_eq, hdue]
  split
  next => exact ⟨hatEnd, rfl⟩
  next reply _ =>
    obtain ⟨hbare, hending⟩ := bare_applyReply p.atEnd reply
    obtain ⟨hbare', hending'⟩ := bare_applyReply p.bare.atEnd reply
    rw [hatEnd] at hbare hending
    exact ⟨hbare.trans hbare'.symm, hending.trans hending'.symm⟩
  next => exact ⟨hatEnd, rfl⟩

end Chain

namespace Passage

theorem bare_runWork (p : Passage σ) (work : Work σ) :
    (p.runWork work).bare = (p.bare.runWork work).bare := by
  simp only [runWork, bare, Passage.log, Passage.note, Service.log, Service.note,
    Exchange.takePending, Exchange.unmeasured]
  split <;> rfl

/-- An error that left the chain is answered by what its status would be after a failure. -/
theorem bare_answerError (p : Passage σ) (e : ChainError) :
    (p.answerError e).bare =
      { p.bare.failed with
        exchange := { p.bare.failed.exchange with
          response := .bare p.bare.failed.exchange.status, pending := none } } := by
  obtain ⟨readings, measurements, heq, -⟩ := p.answerError_eq_aftermath e
  rw [heq]
  rfl

end Passage

end TimedHttp
