import TimedHttp.Proofs.PassCount
import TimedHttp.Proofs.Unmeasured

/-!
# The reference

What a request is answered with follows from the work of its handler alone, as long as the layers
hand on what their inner stages end in: how many of them there are, what they measure, and how often
the request passes through them does not show.

## Main definitions

* `Work.result`, `App.reference` — what work comes to, and the response for it
* `Layer.HandsOn` — timing layers, and middlewares that at most wrap an error
* `Exchange.outlook` — the response that an exchange will come to

## Main statements

* `Chain.run_handsOn` — a pass does what its end does
* `App.Begins.outlook` — the outlook is the same whenever a pass begins
* `App.handle_eq_reference` — requests are answered with the reference
-/

namespace TimedHttp

variable {σ : Type}

/-! ## What work comes to -/

/-- **What work comes to**, with all that it defers; a crash comes to an error. -/
def Work.result : Work σ → Except HandlerError Response
  | touch _ rest => rest.result
  | answer response => .ok response
  | fail error => .error error
  | defer later => later.result
  | crash _ => .error .crashed

def Reply.result : Reply σ → Except HandlerError Response
  | ready result => result
  | deferred later => later.result

namespace Work

theorem reply_ok {w : Work σ} {reply : Reply σ} (h : w.reply = .ok reply) :
    reply.result = w.result ∧ reply.deferrals = w.deferrals := by
  induction w with
  | touch change rest ih => exact ih h
  | answer | fail | defer =>
    cases h
    exact ⟨rfl, rfl⟩
  | crash => cases h

theorem reply_error {w : Work σ} {message : String} (h : w.reply = .error message) :
    w.result = .error .crashed ∧ w.deferrals = 0 := by
  induction w with
  | touch change rest ih => exact ih h
  | answer | fail | defer => cases h
  | crash => exact ⟨rfl, rfl⟩

end Work

/-! ## The reference -/

/-- The status for an error that is raised: that to which it is mapped if that is 4xx or 5xx, and
500 otherwise. -/
def HandlerError.raisedStatus (e : HandlerError) : Status :=
  match e.status with
  | some status =>
    if status.isClientError || status.isServerError then status else .internalServerError
  | none => .internalServerError

/-- The status for an error of deferred work: that to which it is mapped, and 500 without one. -/
def HandlerError.deferredStatus (e : HandlerError) : Status :=
  e.status.getD .internalServerError

/-- The response to what work comes to behind so many deferrals. -/
def responseTo (deferrals : Nat) : Except HandlerError Response → Response
  | .ok response => response
  | .error e =>
    { status := if deferrals = 0 then e.raisedStatus else e.deferredStatus
      header := []
      body := [] }

/-- **The reference**: the response of an application to a request, by the work of the handler. -/
def App.reference (app : App σ) (request : Request) : Response :=
  match app.routes.lookup request.method request.path with
  | none => { status := .notFound, header := [], body := [] }
  | some (route, params) =>
    let work := route.handler { request with params }
    responseTo work.deferrals work.result

theorem HandlerError.orServerError_status (e : HandlerError) :
    (e.status.getD .ok).orServerError = e.raisedStatus := by
  cases hs : e.status <;> simp only [raisedStatus, hs] <;> rfl

/-! ## Layers that hand on -/

/-- The outer ending is the inner one, with an error perhaps wrapped. -/
def Ending.HandedOn (inner outer : Ending) : Prop :=
  match inner with
  | .returned (.error e) => ∃ n, outer = .returned (.error (e.wrap n))
  | _ => outer = inner

/-- **A middleware hands on**: it calls its inner stages, edits nothing, and keeps their ending, but
may wrap an error. -/
def Middleware.HandsOn (middleware : Middleware σ) : Prop :=
  ∀ sight, (middleware sight).edits = [] ∧
    ∃ after, (middleware sight).next = .proceed after ∧
      ∀ sight' ending, (after sight' ending).edits = [] ∧
        ending.HandedOn (after sight' ending).next

def Layer.HandsOn : Layer σ → Prop
  | timing _ => True
  | custom middleware => middleware.HandsOn

theorem ChainError.wrap_wrap (e : ChainError) (n k : Nat) : (e.wrap n).wrap k = e.wrap (n + k) := by
  induction k with
  | zero => rfl
  | succ k ih => exact congrArg nested ih

theorem Ending.HandedOn.trans {a b c : Ending} (hab : a.HandedOn b) (hbc : b.HandedOn c) :
    a.HandedOn c := by
  match a with
  | .crashed _ =>
    obtain rfl := hab
    exact hbc
  | .returned (.ok ()) =>
    obtain rfl := hab
    exact hbc
  | .returned (.error e) =>
    obtain ⟨n, rfl⟩ := hab
    obtain ⟨k, rfl⟩ := hbc
    exact ⟨n + k, by rw [ChainError.wrap_wrap]⟩

theorem Passage.exchange_take {α : Type} {turn : Turn σ α} (h : turn.edits = []) (p : Passage σ) :
    (p.take turn).exchange = p.exchange := by
  simp [take, h]

namespace Chain

/-- What the end of the chain did has been handed on: after an error the status may have been set
to 500 meanwhile, and otherwise the exchange is the same but for its measurement. -/
def HandedOn (inner outer : Passage σ × Ending) : Prop :=
  inner.2.HandedOn outer.2 ∧
    match inner.2 with
    | .returned (.ok ()) => outer.1.exchange.unmeasured = inner.1.exchange.unmeasured
    | .returned (.error _) =>
      outer.1.exchange.unmeasured.failStatus = inner.1.exchange.unmeasured.failStatus
    | .crashed _ => True

namespace HandedOn

variable {inner : Passage σ × Ending} {q : Passage σ} {ending : Ending}

theorem refl (inner : Passage σ × Ending) : HandedOn inner inner := by
  obtain ⟨p, ending⟩ := inner
  match ending with
  | .crashed _ => exact ⟨rfl, trivial⟩
  | .returned (.ok ()) => exact ⟨rfl, rfl⟩
  | .returned (.error e) => exact ⟨⟨0, rfl⟩, rfl⟩

theorem leave (h : HandedOn inner (q, ending)) (layer : TimingLayer σ) (m position : Nat) :
    HandedOn inner ((layer.leave m q ending).note (.layerLeft position ending), ending) := by
  obtain ⟨hending, hexchange⟩ := h
  refine ⟨hending, ?_⟩
  have hbare := congrArg Passage.exchange (bare_leave layer m q ending)
  obtain ⟨p, inner⟩ := inner
  match inner with
  | .crashed _ => trivial
  | .returned (.ok ()) =>
    obtain rfl : ending = .returned (.ok ()) := hending
    exact hbare.trans hexchange
  | .returned (.error e) =>
    obtain ⟨n, rfl⟩ : ∃ n, ending = .returned (.error (e.wrap n)) := hending
    exact (congrArg Exchange.failStatus hbare).trans
      ((Exchange.failStatus_failStatus _).trans hexchange)

theorem take (h : HandedOn inner (q, ending)) {turn : Turn σ Ending} (hedits : turn.edits = [])
    (hnext : ending.HandedOn turn.next) (position : Nat) :
    HandedOn inner ((q.take turn).note (.layerLeft position turn.next), turn.next) := by
  obtain ⟨hending, hexchange⟩ := h
  refine ⟨hending.trans hnext, ?_⟩
  show match inner.2 with
    | .returned (.ok ()) => (q.take turn).exchange.unmeasured = inner.1.exchange.unmeasured
    | .returned (.error _) =>
      (q.take turn).exchange.unmeasured.failStatus = inner.1.exchange.unmeasured.failStatus
    | .crashed _ => True
  rw [Passage.exchange_take hedits]
  exact hexchange

end HandedOn

/-- **A pass does what its end does**, if all its layers hand on. The end finds the exchange as the
pass found it, but for its measurement. -/
theorem run_handsOn {layers : List (Layer σ)} (h : ∀ layer ∈ layers, layer.HandsOn)
    (position : Nat) (p : Passage σ) :
    ∃ q, q.exchange.unmeasured = p.exchange.unmeasured ∧
      HandedOn (endpoint q) (run position layers p) := by
  induction layers generalizing position p with
  | nil => exact ⟨p, rfl, .refl _⟩
  | cons layer rest ih =>
    have hrest : ∀ layer ∈ rest, layer.HandsOn := fun l hl => h l (List.mem_cons_of_mem _ hl)
    cases layer with
    | timing layer =>
      obtain ⟨q, hq, hinner⟩ := ih hrest (position + 1) (entered position layer p)
      rw [run_timing]
      refine ⟨q, hq.trans ?_, hinner.leave layer _ position⟩
      exact (Passage.bare_eq_iff.mp (bare_entered position layer p)).2
    | custom middleware =>
      obtain ⟨hedits, after, hnext, hafter⟩ := h (.custom middleware) List.mem_cons_self p.sight
      obtain ⟨q, hq, hinner⟩ := ih hrest (position + 1) (firstTurn position middleware p)
      rw [run_proceed hnext]
      obtain ⟨hedits', hnext'⟩ := hafter (run (position + 1) rest _).1.sight _
      refine ⟨q, hq.trans ?_, hinner.take hedits' hnext' position⟩
      exact congrArg Exchange.unmeasured (Passage.exchange_take hedits _)

end Chain

/-! ## What an exchange will come to -/

namespace Exchange

/-- **The response that an exchange will come to**, by the reply that is due on this pass; without
one the response is there already. -/
def outlook (x : Exchange σ) : Response :=
  match x.due? with
  | some (.ok reply) => responseTo reply.deferrals reply.result
  | _ => x.response

/-- The handler of a pass does not crash at once. -/
def Replies (x : Exchange σ) : Prop := ∀ message, x.due? ≠ some (.error message)

/-- An error that is due is raised by the handler, over a response that nobody has touched. -/
def RaisesAfresh (x : Exchange σ) : Prop :=
  ∀ e, x.due? = some (.ok (.ready (.error e))) → x.response = .bare .ok

/-- The deferrals of the reply that is due are those that remain. -/
theorem remaining_of_due {x : Exchange σ} :
    x.remaining =
      match x.due? with
      | some (.ok reply) => reply.deferrals
      | _ => 0 := by
  obtain ⟨request, route, response, kind, pending, reply, error, measurement⟩ := x
  cases kind with
  | resumed => cases reply <;> rfl
  | request =>
    cases route with
    | none => rfl
    | some route =>
      simp only [remaining, App.deferrals, due?]
      cases hr : (route.handler request).reply with
      | ok reply => exact (Work.reply_ok hr).2.symm
      | error message => exact (Work.reply_error hr).2

end Exchange

theorem Chain.status_applyReply_error (p : Passage σ) (e : HandlerError) :
    (applyReply p (.ready (.error e))).1.exchange.status = e.status.getD p.exchange.status := by
  cases hs : e.status <;> simp [applyReply, hs, Exchange.setStatus, Exchange.status]

/-- An error that was raised over a response that nobody has touched, once it has been handed on. -/
theorem Chain.HandedOn.raisedStatus {p : Passage σ} {e : HandlerError} {outer : Passage σ × Ending}
    (h : HandedOn (applyReply p (.ready (.error e))) outer)
    (hfresh : p.exchange.response = .bare .ok) :
    outer.1.exchange.status.orServerError = e.raisedStatus := by
  obtain ⟨-, hexchange⟩ := h
  calc outer.1.exchange.status.orServerError
      = (applyReply p (.ready (.error e))).1.exchange.status.orServerError :=
        (congrArg Exchange.status hexchange :)
    _ = (e.status.getD p.exchange.status).orServerError := by rw [status_applyReply_error]
    _ = e.raisedStatus := by
        rw [Exchange.status, hfresh]
        exact e.orServerError_status

namespace Passage

theorem response_atEnd (p : Passage σ) : p.atEnd.exchange.response = p.exchange.response := by
  simp only [atEnd]
  split <;> rfl

/-- What deferred work comes to is what the exchange will come to. -/
theorem outlook_runWork (p : Passage σ) (work : Work σ) :
    (p.runWork work).exchange.outlook = responseTo (work.deferrals + 1) work.result ∧
      (p.runWork work).exchange.remaining = work.deferrals := by
  simp only [runWork, Work.run_snd]
  split
  next message h =>
    obtain ⟨hresult, hdeferrals⟩ := Work.reply_error h
    rw [hresult, hdeferrals]
    exact ⟨rfl, rfl⟩
  next e h =>
    obtain ⟨hresult, hdeferrals⟩ := Work.reply_ok h
    rw [← hresult, ← hdeferrals]
    exact ⟨rfl, rfl⟩
  next reply hne h =>
    obtain ⟨hresult, hdeferrals⟩ := Work.reply_ok h
    rw [← hresult, ← hdeferrals]
    refine ⟨?_, rfl⟩
    show responseTo reply.deferrals reply.result = _
    rcases reply with (e | response) | later
    · exact absurd rfl (hne e)
    · rfl
    · -- the reply defers itself, so one deferral more makes no difference
      cases hl : later.result <;> simp [responseTo, Reply.result, Reply.deferrals, hl]

end Passage

/-! ## From pass to pass -/

namespace App

variable {app : App σ} {request : Request} {service : Service σ} {n : Nat} {p q : Passage σ}

theorem pass_of_finished (hok : (app.ended p).2 = .returned (.ok ()))
    (hpending : (app.ended p).1.exchange.pending = none) :
    app.pass p = .final (app.ended p).1 none :=
  pass_eq_final_iff.mpr (.inr (.inr ⟨hok, hpending, rfl, rfl⟩))

theorem ended_handsOn (h : ∀ layer ∈ app.layers, layer.HandsOn) (p : Passage σ) :
    ∃ q, q.exchange.unmeasured = p.exchange.unmeasured ∧
      Chain.HandedOn (Chain.endpoint q) (app.ended p) :=
  Chain.run_handsOn h 0 (opened p)

/-- **The outlook**, on a pass that is followed by another, and on the last one. -/
theorem outlook_pass (h : ∀ layer ∈ app.layers, layer.HandsOn)
    (hpending : p.exchange.pending = none) (hreplies : p.exchange.Replies)
    (hafresh : p.exchange.RaisesAfresh) :
    (∃ p', app.pass p = .again p' ∧ p'.exchange.outlook = p.exchange.outlook ∧
      p'.exchange.remaining + 1 = p.exchange.remaining) ∨
    ∃ q, app.pass p = .final q none ∧ q.exchange.response = p.exchange.outlook ∧
      p.exchange.remaining = 0 := by
  obtain ⟨r, hr, hended⟩ := ended_handsOn h p
  have hdue : r.exchange.due? = p.exchange.due? := (congrArg Exchange.due? hr :)
  have hresponse : r.exchange.response = p.exchange.response :=
    (congrArg Exchange.response hr :)
  have hnone : r.exchange.pending = none := (congrArg Exchange.pending hr).trans hpending
  rw [Chain.endpoint_eq, hdue] at hended
  rw [Exchange.remaining_of_due]
  unfold Exchange.outlook
  match hd : p.exchange.due? with
  | some (.error message) => exact absurd hd (hreplies message)
  | none =>
    rw [hd] at hended
    obtain ⟨hok, hexchange⟩ := hended
    have hlast : (app.ended p).1.exchange.pending = none :=
      (congrArg Exchange.pending hexchange).trans (r.pending_atEnd.trans hnone)
    refine .inr ⟨_, pass_of_finished hok hlast, ?_, rfl⟩
    exact (congrArg Exchange.response hexchange).trans (r.response_atEnd.trans hresponse)
  | some (.ok (.ready (.ok response))) =>
    rw [hd] at hended
    obtain ⟨hok, hexchange⟩ := hended
    have hlast : (app.ended p).1.exchange.pending = none :=
      (congrArg Exchange.pending hexchange).trans (r.pending_atEnd.trans hnone)
    exact .inr ⟨_, pass_of_finished hok hlast, congrArg Exchange.response hexchange, rfl⟩
  | some (.ok (.ready (.error e))) =>
    rw [hd] at hended
    have hfresh : r.atEnd.exchange.response = .bare .ok :=
      r.response_atEnd.trans (hresponse.trans (hafresh e hd))
    have hstatus := hended.raisedStatus hfresh
    obtain ⟨⟨k, herror⟩, -⟩ := hended
    refine .inr ⟨_, pass_eq_final_iff.mpr (.inr (.inl ⟨_, herror, rfl, rfl⟩)), ?_, rfl⟩
    obtain ⟨readings, measurements, hanswer, -⟩ :=
      (app.ended p).1.answerError_eq_aftermath ((ChainError.handler e).wrap k)
    rw [hanswer]
    exact congrArg Response.bare hstatus
  | some (.ok (.deferred later)) =>
    rw [hd] at hended
    obtain ⟨hok, hexchange⟩ := hended
    have hwork : (app.ended p).1.exchange.pending = some later :=
      congrArg Exchange.pending hexchange
    obtain ⟨houtlook, hremaining⟩ := (app.ended p).1.outlook_runWork later
    refine .inl ⟨_, pass_eq_again_iff.mpr ⟨hok, later, hwork, rfl⟩, ?_, ?_⟩
    · exact houtlook
    · exact congrArg (· + 1) hremaining

/-- Unless the handler crashes at once, no pass does. -/
theorem Begins.replies (h : app.Begins request service n p)
    (hreplies : (app.begin request).Replies) :
    p.exchange.Replies := by
  rcases h.state with ⟨rfl, -⟩ | ⟨-, hlater⟩
  · rw [h.unique .first]
    exact hreplies
  · intro message hdue
    have hkind : p.exchange.kind = .resumed := hlater.elim (fun hr => hr.1) fun hf => hf.1
    simp only [Exchange.due?, hkind, Option.map_eq_some_iff] at hdue
    obtain ⟨reply, -, hreply⟩ := hdue
    cases hreply

theorem Begins.raisesAfresh (h : app.Begins request service n p) : p.exchange.RaisesAfresh := by
  intro e hdue
  rcases h.state with ⟨rfl, -⟩ | ⟨-, hlater⟩
  · obtain ⟨params, route, hx⟩ := app.begin_fresh request
    rw [h.unique .first]
    exact congrArg Exchange.response hx
  · have hkind : p.exchange.kind = .resumed := hlater.elim (fun hr => hr.1) fun hf => hf.1
    simp only [Exchange.due?, hkind, Option.map_eq_some_iff] at hdue
    obtain ⟨reply, hreply, heq⟩ := hdue
    cases heq
    exact absurd hreply (h.reply_ne_error e)

/-- **The outlook is the same whenever a pass begins**, and each pass has used up one deferral. -/
theorem Begins.outlook (h : app.Begins request service n p)
    (hlayers : ∀ layer ∈ app.layers, layer.HandsOn) (hreplies : (app.begin request).Replies) :
    p.exchange.outlook = (app.begin request).outlook ∧
      n + p.exchange.remaining = deferrals (app.begin request) := by
  induction h with
  | first =>
    obtain ⟨params, route, hx⟩ := app.begin_fresh request
    refine ⟨rfl, ?_⟩
    simp only [start, hx]
    exact Nat.zero_add _
  | @next n p p' hp hpass ih =>
    obtain ⟨houtlook, hremaining⟩ := ih
    obtain ⟨hpending, -⟩ := hp.pending_and_le
    rcases outlook_pass hlayers hpending (hp.replies hreplies) hp.raisesAfresh with
      ⟨q, hagain, hq, hlt⟩ | ⟨q, hfinal, -⟩
    · cases hpass.symm.trans hagain
      exact ⟨hq.trans houtlook, by omega⟩
    · cases hpass.symm.trans hfinal

theorem outlook_begin (app : App σ) (request : Request)
    (hreplies : (app.begin request).Replies) :
    (app.begin request).outlook = app.reference request := by
  cases hl : app.routes.lookup request.method request.path with
  | none =>
    have hx : app.begin request = .fresh request none := by simp only [App.begin, hl]
    simp only [hx, reference, hl]
    rfl
  | some found =>
    obtain ⟨route, params⟩ := found
    have hx : app.begin request = .fresh { request with params } (some route) := begin_of_lookup hl
    have hdue : (app.begin request).due? = some (route.handler { request with params }).reply := by
      rw [hx]
      rfl
    simp only [Exchange.outlook, hdue, reference, hl]
    cases hr : (route.handler { request with params }).reply with
    | error message => exact absurd (hdue.trans (congrArg some hr)) (hreplies message)
    | ok reply =>
      obtain ⟨hresult, hdeferrals⟩ := Work.reply_ok hr
      rw [← hresult, ← hdeferrals]

/-- **The last pass** comes when all deferrals are used up, and leaves the reference. -/
theorem exists_last (app : App σ) (request : Request) (service : Service σ)
    (hlayers : ∀ layer ∈ app.layers, layer.HandsOn) (hreplies : (app.begin request).Replies) :
    ∃ p q, app.Begins request service (deferrals (app.begin request)) p ∧
      app.pass p = .final q none ∧ app.run? request service = some (q, none) ∧
      q.exchange.response = app.reference request := by
  obtain ⟨q, crash, hrun⟩ := app.exists_run? request service
  obtain ⟨n, p, hp, hpass⟩ := run?_eq_some_iff.mp hrun
  obtain ⟨houtlook, hremaining⟩ := hp.outlook hlayers hreplies
  obtain ⟨hpending, -⟩ := hp.pending_and_le
  rcases outlook_pass hlayers hpending (hp.replies hreplies) hp.raisesAfresh with
    ⟨p', hagain, -⟩ | ⟨q', hfinal, hresponse, hnone⟩
  · cases hpass.symm.trans hagain
  · cases hpass.symm.trans hfinal
    have hn : n = deferrals (app.begin request) := by omega
    refine ⟨p, q, hn ▸ hp, hpass, hrun, ?_⟩
    rw [hresponse, houtlook, outlook_begin app request hreplies]

/-- **Requests are answered with the reference**, if all layers hand on and the handler does not
crash at once. There is one pass more than work that was run, and all work is run. -/
theorem handle_eq_reference (app : App σ) (request : Request) (service : Service σ)
    (hlayers : ∀ layer ∈ app.layers, layer.HandsOn) (hreplies : (app.begin request).Replies) :
    (app.handle request service).2 = .ok (app.reference request) ∧
      service.Passes (app.handle request service).1 (deferrals (app.begin request) + 1)
        (deferrals (app.begin request)) := by
  obtain ⟨p, q, hp, hpass, hrun, hresponse⟩ := app.exists_last request service hlayers hreplies
  rw [handle_of_run? hrun]
  exact ⟨congrArg Except.ok hresponse, hp.passes_of_final hpass⟩

end App

/-! ## Everything crashes but the answer -/

/-- The middleware that wraps every error once. -/
def Middleware.wrapping : Middleware σ := fun sight =>
  { state := sight.state
    next := .proceed fun sight ending =>
      { state := sight.state
        next :=
          match ending with
          | .returned (.error e) => .returned (.error (.nested e))
          | _ => ending } }

theorem Middleware.handsOn_wrapping : (wrapping : Middleware σ).HandsOn := by
  intro sight
  refine ⟨rfl, _, rfl, fun sight' ending => ⟨rfl, ?_⟩⟩
  match ending with
  | .crashed _ => rfl
  | .returned (.ok ()) => rfl
  | .returned (.error e) => exact ⟨1, rfl⟩

namespace Exports

/-- Work that crashes behind two deferrals, within layers over a registry that crashes. -/
def fragile : App Unit :=
  { routes := routes (.defer (.crash "out of memory"))
    layers := [.timing untagged, .custom .wrapping, .timing { registry := 0 }] }

/-- The response is a bare 500 after three passes, between which work was run twice. -/
theorem fragile_answered :
    (fragile.handle request crashing).2 = .ok (.bare .internalServerError) ∧
      crashing.Passes (fragile.handle request crashing).1 3 2 := by
  have hlayers : ∀ layer ∈ fragile.layers, layer.HandsOn := by
    simp only [fragile, List.forall_mem_cons]
    exact ⟨trivial, Middleware.handsOn_wrapping, trivial, List.forall_mem_nil _⟩
  have hreplies : (fragile.begin request).Replies := fun message hdue => nomatch hdue
  exact App.handle_eq_reference fragile request crashing hlayers hreplies

end Exports

end TimedHttp
