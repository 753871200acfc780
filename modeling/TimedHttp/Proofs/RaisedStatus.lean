import TimedHttp.Proofs.Reference

/-!
# The status of a raised error

An error that leaves the chain is answered with the status that the exchange has then. The status to
which an error is mapped gets there in one place, the end of the chain, before it raises the error
of a handler; a middleware sets the status itself. So the error and the exchange are followed
together, from the stage that raises the one with a status on the other.

## Main definitions

* `Edit.status?` — the status that an edit sets
* `Chain.Raises` — an error is raised, and leaves the stages

## Main statements

* `Chain.run_of_raises` — what it leaves behind
* `App.raised_status_answered` — what the request is answered with
-/

namespace TimedHttp

variable {σ : Type}

/-- The status that an edit sets, alone or with a response. -/
def Edit.status? : Edit → Option Status
  | setStatus status => some status
  | setResponse response => some response.status
  | attach _ => none

theorem Edit.status_apply (x : Exchange σ) (e : Edit) :
    (e.apply x).status = e.status?.getD x.status := by
  cases e with
  | setStatus status => rfl
  | setResponse response => rfl
  | attach measurement =>
    simp only [apply, Exchange.attach]
    split <;> rfl

/-- Of the statuses that are set in a turn, the last one stays. -/
theorem Passage.status_take {α : Type} (p : Passage σ) (turn : Turn σ α) :
    (p.take turn).exchange.status =
      (turn.edits.filterMap Edit.status?).getLast?.getD p.exchange.status := by
  have hfold : ∀ (edits : List Edit) (x : Exchange σ),
      (edits.foldl Edit.apply x).status =
        (edits.filterMap Edit.status?).getLast?.getD x.status := by
    intro edits
    induction edits with
    | nil => exact fun _ => rfl
    | cons e edits ih =>
      intro x
      rw [List.foldl_cons, ih, Edit.status_apply, List.filterMap_cons]
      cases e.status? with
      | none => rfl
      | some status => simp [List.getLast?_cons]
  exact hfold turn.edits p.exchange

namespace Chain

/-- **An error is raised** in the stages, with a status on the exchange, and leaves them: every
layer outside of the one that raises it hands it on, perhaps wrapped. The list has the statuses that
middlewares set on its way. -/
inductive Raises :
    Nat → List (Layer σ) → Passage σ → ChainError → Status → List Status → Prop
  /-- an error of the handler, mapped to the status -/
  | atEnd {position : Nat} {p : Passage σ} {e : ChainError} {s : Status} :
      (endpoint p).2 = .returned (.error e) → e.status = some s → Raises position [] p e s []
  /-- a middleware raises the error in its first turn -/
  | first {position : Nat} {middleware : Middleware σ} {rest : List (Layer σ)} {p : Passage σ}
      {e : ChainError} :
      (middleware p.sight).next = .stop (.returned (.error e)) →
      Raises position (.custom middleware :: rest) p e
        (firstTurn position middleware p).exchange.status []
  /-- a middleware raises the error in its second turn, however the inner stages ended -/
  | second {position : Nat} {middleware : Middleware σ} {rest : List (Layer σ)} {p q : Passage σ}
      {after : Sight σ → Ending → Turn σ Ending} {ending : Ending} {e : ChainError} :
      (middleware p.sight).next = .proceed after →
      run (position + 1) rest (firstTurn position middleware p) = (q, ending) →
      (after q.sight ending).next = .returned (.error e) →
      Raises position (.custom middleware :: rest) p e
        (q.take (after q.sight ending)).exchange.status []
  | timing {position : Nat} {layer : TimingLayer σ} {rest : List (Layer σ)} {p : Passage σ}
      {e : ChainError} {s : Status} {since : List Status} :
      Raises (position + 1) rest (entered position layer p) e s since →
      Raises position (.timing layer :: rest) p e s since
  | handedOn {position : Nat} {middleware : Middleware σ} {rest : List (Layer σ)}
      {p q : Passage σ} {after : Sight σ → Ending → Turn σ Ending} {ending : Ending}
      {e : ChainError} {s : Status} {since : List Status} :
      (middleware p.sight).next = .proceed after →
      run (position + 1) rest (firstTurn position middleware p) = (q, ending) →
      Raises (position + 1) rest (firstTurn position middleware p) e s since →
      ending.HandedOn (after q.sight ending).next →
      Raises position (.custom middleware :: rest) p e s
        (since ++ (after q.sight ending).edits.filterMap Edit.status?)

/-- A middleware that hands on what its inner stages end in sets no status on the way. -/
theorem Raises.handsOn {position : Nat} {middleware : Middleware σ} {rest : List (Layer σ)}
    {p : Passage σ} {e : ChainError} {s : Status} {since : List Status}
    (hmiddleware : middleware.HandsOn)
    (h : Raises (position + 1) rest (firstTurn position middleware p) e s since) :
    Raises position (.custom middleware :: rest) p e s since := by
  obtain ⟨-, after, hnext, hafter⟩ := hmiddleware p.sight
  obtain ⟨hedits, hhanded⟩ :=
    hafter (run (position + 1) rest (firstTurn position middleware p)).1.sight
      (run (position + 1) rest (firstTurn position middleware p)).2
  have houter := Raises.handedOn hnext rfl h hhanded
  rwa [hedits, List.filterMap_nil, List.append_nil] at houter

/-- The end of the chain sets the status to which an error is mapped, whatever it was before. -/
theorem status_of_raised {p : Passage σ} {e : ChainError} {s : Status}
    (h : (endpoint p).2 = .returned (.error e)) (hs : e.status = some s) :
    (endpoint p).1.exchange.status = s := by
  rw [endpoint_eq] at h ⊢
  match p.exchange.due?, h with
  | some (.ok (.ready (.error e'))), h =>
    cases h
    have hmapped : e'.status = some s := hs
    rw [status_applyReply_error, hmapped]
    rfl

/-- **What an error leaves behind** when it leaves the stages: itself, perhaps wrapped, and the
status that was set last, or the one with which it was raised. Timing layers change a status only to
the one with which a failure would be answered anyway. -/
theorem run_of_raises {position : Nat} {layers : List (Layer σ)} {p : Passage σ} {e : ChainError}
    {s : Status} {since : List Status} (h : Raises position layers p e s since) :
    (∃ n, (run position layers p).2 = .returned (.error (e.wrap n))) ∧
      (run position layers p).1.exchange.status.orServerError =
        (since.getLast?.getD s).orServerError := by
  induction h with
  | atEnd hraised hs =>
    exact ⟨⟨0, hraised⟩, congrArg Status.orServerError (status_of_raised hraised hs)⟩
  | first hnext =>
    rw [run_stop hnext]
    exact ⟨⟨0, rfl⟩, rfl⟩
  | second hnext hinner hraised =>
    rw [run_proceed hnext, hinner]
    exact ⟨⟨0, hraised⟩, rfl⟩
  | @timing position layer rest p e s since _ ih =>
    obtain ⟨⟨n, hending⟩, hstatus⟩ := ih
    rw [run_timing]
    refine ⟨⟨n, hending⟩, ?_⟩
    show (layer.leave (measured position layer p) (run (position + 1) rest _).1
      (run (position + 1) rest _).2).exchange.status.orServerError = _
    rw [hending]
    exact (Status.orServerError_orServerError _).trans hstatus
  | @handedOn position middleware rest p q after ending e s since hnext hinner _ hhanded ih =>
    rw [hinner] at ih
    obtain ⟨⟨n, hending⟩, hstatus⟩ := ih
    obtain rfl : ending = .returned (.error (e.wrap n)) := hending
    obtain ⟨k, houter⟩ := hhanded
    rw [run_proceed hnext, hinner]
    refine ⟨⟨n + k, by rw [← ChainError.wrap_wrap]; exact houter⟩, ?_⟩
    show (q.take _).exchange.status.orServerError = _
    rw [Passage.status_take, List.getLast?_append]
    -- what this middleware sets comes last
    cases ((after q.sight (.returned (.error (e.wrap n)))).edits.filterMap
        Edit.status?).getLast? with
    | none => exact hstatus
    | some status => rfl

end Chain

theorem ChainError.status_wrap (e : ChainError) (n : Nat) : (e.wrap n).status = e.status := by
  induction n with
  | zero => rfl
  | succ n ih => exact ih

namespace App

variable {app : App σ} {request : Request} {service : Service σ} {n : Nat} {p : Passage σ}

/-- **The status with which an error is raised is the answer.** Say that on some pass an error
leaves the chain that was raised with a status of 4xx or 5xx on the exchange. For an error of the
handler that is the status to which it is mapped, whatever the exchange had before; a middleware has
set it itself, before it calls the inner stages or after. Then the response has that status, no
header fields and no body, whatever layers the error passed and however often it was wrapped there;
unless a middleware outside set another status meanwhile, in which case the last one so set is kept
if it is 4xx or 5xx, and becomes 500 otherwise. -/
theorem raised_status_answered {e : ChainError} {s : Status} {since : List Status}
    (h : app.Begins request service n p)
    (hraises : Chain.Raises 0 app.layers (opened p) e s since)
    (hs : s.isClientError || s.isServerError) :
    (∃ k, (app.ended p).2 = .returned (.error (e.wrap k)) ∧ (e.wrap k).status = e.status) ∧
      (app.handle request service).2 = .ok
        { status :=
            match since.getLast? with
            | none => s
            | some last =>
              if last.isClientError || last.isServerError then last else .internalServerError
          header := []
          body := [] } := by
  obtain ⟨⟨k, hending⟩, hstatus⟩ := Chain.run_of_raises hraises
  have hended : (app.ended p).2 = .returned (.error (e.wrap k)) := hending
  have hpass : app.pass p = .final ((app.ended p).1.answerError (e.wrap k)) none :=
    pass_eq_final_iff.mpr (.inr (.inl ⟨_, hended, rfl, rfl⟩))
  have hrun : app.run? request service = some ((app.ended p).1.answerError (e.wrap k), none) :=
    run?_eq_some_iff.mpr ⟨n, p, h, hpass⟩
  refine ⟨⟨k, hended, ChainError.status_wrap e k⟩, ?_⟩
  have hanswer : (app.ended p).1.exchange.status.orServerError =
      (since.getLast?.getD s).orServerError := hstatus
  rw [handle_of_run? hrun, Passage.answerError_eq_told]
  show Except.ok (Response.bare (app.ended p).1.exchange.status.orServerError) = _
  rw [hanswer]
  cases since.getLast? with
  | none => simp [Response.bare, Status.orServerError, Status.isError, hs]
  | some last => rfl

end App

/-! ## Errors of a handler and of a middleware -/

/-- The middleware that sets a status when its inner stages have ended, and hands on their ending.
-/
def Middleware.overruling (status : Status) : Middleware σ := fun sight =>
  { state := sight.state
    next := .proceed fun sight ending =>
      { edits := [.setStatus status], state := sight.state, next := ending } }

/-- The middleware that raises an error on each pass, and sets no status. -/
def Middleware.barring (e : HandlerError) : Middleware σ := fun sight =>
  { state := sight.state, next := .stop (.returned (.error (.handler e))) }

namespace Exports

/-- An error that is mapped to 409. -/
def conflict : HandlerError :=
  { className := "Conflict", message := "taken", status := some { code := 409 } }

/-- The given layers around a route whose handler raises an error that is mapped to 409. -/
def contested (layers : List (Layer Unit)) : App Unit :=
  { routes :=
      [{ route :=
           { method := .get, pattern := "/exports", name := "exports"
             handler := fun _ => .fail conflict }
         pattern := "/exports".toList.map .literal }]
    layers }

/-- The error of the handler passes a timing layer, and is wrapped outside of it. -/
def retold : App Unit := contested [.custom .wrapping, .timing untagged]

/-- It was raised with the status 409 on the exchange, so the response has that status. -/
theorem conflict_answered :
    Chain.Raises 0 retold.layers (App.opened (retold.start request crashing)) (.handler conflict)
        { code := 409 } [] ∧
      (retold.handle request crashing).2 = .ok (.bare { code := 409 }) := by
  have hend : Chain.Raises 2 [] (Chain.entered 1 untagged
      (Chain.firstTurn 0 .wrapping (App.opened (retold.start request crashing))))
      (.handler conflict) { code := 409 } [] := .atEnd rfl rfl
  have hraises : Chain.Raises 0 retold.layers (App.opened (retold.start request crashing))
      (.handler conflict) { code := 409 } [] := .handsOn Middleware.handsOn_wrapping (.timing hend)
  obtain ⟨-, hanswer⟩ := App.raised_status_answered .first hraises rfl
  exact ⟨hraises, hanswer⟩

/-- A middleware sets the status 418 after the handler has raised its error. -/
def overruled : App Unit := contested [.custom (.overruling { code := 418 })]

/-- A middleware raises the error, and the handler is never called. -/
def barred : App Unit := contested [.custom (.barring conflict)]

/-- The status to which an error is mapped is not always the answer, though the exchange has the
status 200 when the error is raised: a middleware may set another status meanwhile, or raise the
error and leave the status as it is. -/
theorem mapped_status_not_answered :
    (∃ q e, Chain.reached? 0 overruled.layers (App.opened (overruled.start request crashing)) =
          some q ∧
        q.exchange.status = .ok ∧ (Chain.endpoint q).2 = .returned (.error e) ∧
        (overruled.ended (overruled.start request crashing)).2 = .returned (.error e) ∧
        e.status = some { code := 409 } ∧
        (overruled.handle request crashing).2 = .ok (.bare { code := 418 })) ∧
    ∃ e, (barred.ended (barred.start request crashing)).1.exchange.status = .ok ∧
        (barred.ended (barred.start request crashing)).2 = .returned (.error e) ∧
        e.status = some { code := 409 } ∧
        (barred.handle request crashing).2 = .ok (.bare .internalServerError) :=
  ⟨⟨_, _, rfl, rfl, rfl, rfl, rfl, rfl⟩, _, rfl, rfl, rfl, rfl⟩

end Exports

end TimedHttp
