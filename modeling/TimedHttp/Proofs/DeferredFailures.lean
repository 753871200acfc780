import TimedHttp.Proofs.RaisedStatus

/-!
# Failures at once and failures of deferred work

A handler may fail at once, or leave work behind that fails in the end. The first failure is raised
in the chain and answered when it has left it; the second is answered between two passes, before the
chain sees it. Both answers are bare. They have the same status if the error is mapped to 4xx or
5xx, or to none. To any other status a raised error is not answered: the response becomes 500,
whereas deferred work may well fail with it.

## Main definitions

* `App.work?` — the work for a request

## Main statements

* `HandlerError.raisedStatus_eq_deferredStatus_iff` — when the two statuses are the same
* `App.failed_at_once_or_deferred` — the two answers
-/

namespace TimedHttp

variable {σ : Type}

theorem HandlerError.raisedStatus_eq_deferredStatus_iff (e : HandlerError) :
    e.raisedStatus = e.deferredStatus ↔
      ∀ status, e.status = some status → status.isClientError || status.isServerError := by
  simp only [raisedStatus, deferredStatus]
  cases hs : e.status with
  | none => simp
  | some status =>
    simp only [Option.some.injEq, forall_eq', Option.getD_some]
    split
    next h => exact ⟨fun _ => h, fun _ => rfl⟩
    next h =>
      -- the status would have to be 500, which is a server error
      refine ⟨fun heq => ?_, fun h' => absurd h' h⟩
      rw [← heq]
      rfl

namespace App

variable {app : App σ} {request : Request} {w : Work σ}

/-- The work of the handler for a request, if the request has a route. -/
def work? (app : App σ) (request : Request) : Option (Work σ) :=
  (app.routes.lookup request.method request.path).map fun found =>
    found.1.handler { request with params := found.2 }

theorem reference_of_work (h : app.work? request = some w) :
    app.reference request = responseTo w.deferrals w.result := by
  obtain ⟨found, hfound, rfl⟩ := Option.map_eq_some_iff.mp h
  simp only [reference, hfound]

theorem replies_of_work (h : app.work? request = some w) {reply : Reply σ}
    (hreply : w.reply = .ok reply) : (app.begin request).Replies := by
  obtain ⟨found, hfound, rfl⟩ := Option.map_eq_some_iff.mp h
  intro message hdue
  have hx : app.begin request = .fresh { request with params := found.2 } (some found.1) := by
    simp only [App.begin, hfound]
  rw [hx] at hdue
  cases (Option.some.inj hdue).symm.trans hreply

/-- A request whose handler does not crash at once is answered by what its work comes to. -/
theorem handle_of_work (h : app.work? request = some w) {reply : Reply σ}
    (hreply : w.reply = .ok reply) (hlayers : ∀ layer ∈ app.layers, layer.HandsOn)
    (service : Service σ) :
    (app.handle request service).2 = .ok (responseTo w.deferrals w.result) := by
  obtain ⟨p, q, -, -, hrun, hresponse⟩ :=
    app.exists_last request service hlayers (replies_of_work h hreply)
  rw [handle_of_run? hrun, ← reference_of_work h]
  exact congrArg Except.ok hresponse

/-- **Failing at once and failing in the end.** Let a handler return an error, and another one defer
work that yields the same error behind any number of deferrals, both within layers that hand on.
Neither response has header fields or a body. The first has the status to which the error is mapped
if that is 4xx or 5xx, and otherwise 500; the second has the status to which the error is mapped,
whatever it is, and 500 without one. So they are the same exactly if the error is mapped to no
status or to one of 4xx or 5xx. -/
theorem failed_at_once_or_deferred {failing deferring : App σ} {request request' : Request}
    {w v : Work σ} {e : HandlerError}
    (hfailing : ∀ layer ∈ failing.layers, layer.HandsOn)
    (hdeferring : ∀ layer ∈ deferring.layers, layer.HandsOn)
    (hw : failing.work? request = some w) (hfails : w.reply = .ok (.ready (.error e)))
    (hv : deferring.work? request' = some v) (hdefers : 1 ≤ v.deferrals)
    (hyields : v.result = .error e) (service service' : Service σ) :
    (failing.handle request service).2 = .ok
      { status :=
          match e.status with
          | none => .internalServerError
          | some status =>
            if status.isClientError || status.isServerError then status else .internalServerError
        header := []
        body := [] } ∧
      (deferring.handle request' service').2 = .ok
        { status :=
            match e.status with
            | none => .internalServerError
            | some status => status
          header := []
          body := [] } ∧
      ((failing.handle request service).2 = (deferring.handle request' service').2 ↔
        ∀ status, e.status = some status → status.isClientError || status.isServerError) := by
  have hfailed : (failing.handle request service).2 = .ok (.bare e.raisedStatus) := by
    obtain ⟨hresult, hdeferrals⟩ := Work.reply_ok hfails
    rw [handle_of_work hw hfails hfailing, ← hresult, ← hdeferrals]
    rfl
  have hdeferred : (deferring.handle request' service').2 = .ok (.bare e.deferredStatus) := by
    cases hreply : v.reply with
    | error message => exact absurd (Work.reply_error hreply).2 (Nat.ne_of_gt hdefers)
    | ok reply =>
      rw [handle_of_work hv hreply hdeferring, hyields, responseTo,
        if_neg (Nat.ne_of_gt hdefers)]
      rfl
  refine ⟨hfailed.trans ?_, hdeferred.trans ?_, ?_⟩
  · rw [HandlerError.raisedStatus]
    cases e.status <;> rfl
  · rw [HandlerError.deferredStatus]
    cases e.status <;> rfl
  · rw [hfailed, hdeferred, ← e.raisedStatus_eq_deferredStatus_iff]
    simp [Response.bare]

end App

/-! ## A conflict and a redirection -/

namespace Exports

/-- The given layers around a route for which there is the given work. -/
def working (work : Work Unit) (layers : List (Layer Unit)) : App Unit :=
  { routes :=
      [{ route :=
           { method := .get, pattern := "/exports", name := "exports", handler := fun _ => work }
         pattern := "/exports".toList.map .literal }]
    layers }

def moved : HandlerError :=
  { className := "Moved", message := "elsewhere", status := some { code := 302 } }

/-- The conflict is answered with its status at once, and so it is behind two deferrals. -/
theorem conflict_answered_alike :
    let layers : List (Layer Unit) := [.custom .wrapping, .timing untagged]
    ((working (.fail conflict) layers).handle request crashing).2 =
        .ok (.bare { code := 409 }) ∧
      ((working ((Work.fail conflict).deferred 2) layers).handle request crashing).2 =
        .ok (.bare { code := 409 }) := by
  intro layers
  have hlayers : ∀ layer ∈ layers, layer.HandsOn := by
    simp only [layers, List.forall_mem_cons]
    exact ⟨Middleware.handsOn_wrapping, trivial, List.forall_mem_nil _⟩
  have hfails : (working (.fail conflict) layers).work? request = some (.fail conflict) := rfl
  have hdefers : (working ((Work.fail conflict).deferred 2) layers).work? request =
      some ((Work.fail conflict).deferred 2) := rfl
  obtain ⟨hfailed, hdeferred, -⟩ := App.failed_at_once_or_deferred hlayers hlayers hfails rfl
    hdefers (show 1 ≤ 2 from Nat.le_succ 1) rfl crashing crashing
  exact ⟨hfailed, hdeferred⟩

/-- **They are not always the same**: a redirection is answered with 500 at once, and with its
status if it was deferred. -/
theorem redirection_not_answered_alike :
    ¬ ∀ (e : HandlerError) (n : Nat) (layers : List (Layer Unit)), 1 ≤ n →
      (∀ layer ∈ layers, layer.HandsOn) →
      ((working (.fail e) layers).handle request crashing).2 =
        ((working ((Work.fail e).deferred n) layers).handle request crashing).2 := by
  intro halike
  have hsame := halike moved 1 [.timing untagged] (Nat.le_refl 1)
    (List.forall_mem_cons.mpr ⟨trivial, List.forall_mem_nil _⟩)
  have hfailed : ((working (.fail moved) [.timing untagged]).handle request crashing).2 =
      .ok (.bare .internalServerError) := rfl
  have hdeferred : ((working ((Work.fail moved).deferred 1) [.timing untagged]).handle request
      crashing).2 = .ok (.bare { code := 302 }) := rfl
  rw [hfailed, hdeferred] at hsame
  cases hsame

end Exports

end TimedHttp
