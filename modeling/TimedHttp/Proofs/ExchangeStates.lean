import TimedHttp.Proofs.Quiet

/-!
# The states of an exchange

When a pass begins, an exchange is in one of three states: it has just come in; deferred work has
ended in a reply that is still to be applied; or deferred work has failed, and the failure is
answered and kept. Nothing is pending in any of them. Middlewares may stop a pass before its end, so
a reply can stay where it is, but then no further pass follows.

## Main statements

* `App.Begins` — the passages in which the passes of a request begin
* `Chain.reached?`, `Chain.run_of_reached?` — the passage in which a pass reaches its end
* `App.run?_eq_some_iff` — a request is handled by its passes, one after the other
* `App.exchange_between_passes` — the three states, and what follows from them
-/

namespace TimedHttp

variable {σ : Type}

/-! ## The passes of a request -/

/-- **A pass begins**: the passages in which the passes of a request begin, counted from zero. -/
inductive App.Begins (app : App σ) (request : Request) (service : Service σ) :
    Nat → Passage σ → Prop
  | first : Begins app request service 0 (app.start request service)
  | next {n : Nat} {p p' : Passage σ} : Begins app request service n p →
      app.pass p = .again p' → Begins app request service (n + 1) p'

namespace App.Begins

variable {app : App σ} {request : Request} {service : Service σ} {n m : Nat} {p p' : Passage σ}

theorem unique (h : app.Begins request service n p) (h' : app.Begins request service n p') :
    p = p' := by
  induction h generalizing p' with
  | first =>
    cases h'
    rfl
  | next _ hpass ih =>
    cases h' with
    | next hq hpass' =>
      rw [ih hq, hpass'] at hpass
      exact (PassResult.again.inj hpass).symm

/-- A pass that is followed by no other is the last. -/
theorem le_of_last (h : app.Begins request service n p) (hlast : ∀ p', app.pass p ≠ .again p')
    (h' : app.Begins request service m p') : m ≤ n := by
  induction h' with
  | first => exact Nat.zero_le n
  | @next m q q' hq hpass ih =>
    -- the pass before is an earlier one, as it is followed by this one
    refine Nat.lt_of_le_of_ne ih ?_
    rintro rfl
    rw [h.unique hq] at hlast
    exact hlast q' hpass

/-- Nothing is pending, and each pass that came before has used up a deferral. -/
theorem pending_and_le (h : app.Begins request service n p) :
    p.exchange.pending = none ∧ n + p.exchange.remaining ≤ deferrals (app.begin request) := by
  induction h with
  | first =>
    obtain ⟨params, route, hx⟩ := app.begin_fresh request
    simp only [start, hx]
    exact ⟨rfl, Nat.le_of_eq (Nat.zero_add _)⟩
  | next _ hpass ih =>
    obtain ⟨hpending, hlt⟩ := remaining_lt_of_again ih.1 hpass
    exact ⟨hpending, by omega⟩

/-- The passes from this one on are what is left of all passes. -/
theorem passes?_eq (h : app.Begins request service n p) (k : Nat) :
    app.passes? (n + k) (app.start request service) = app.passes? k p := by
  induction h generalizing k with
  | first => rw [Nat.zero_add]
  | @next n p p' _ hpass ih =>
    rw [Nat.add_assoc, Nat.add_comm 1 k, ih (k + 1)]
    simp only [passes?, hpass]

end App.Begins

/-- **Another pass is of the same request, on the same route.** -/
theorem App.continues_of_again {app : App σ} {p p' : Passage σ} (h : app.pass p = .again p') :
    p.exchange.Continues p'.exchange := by
  obtain ⟨-, work, -, rfl⟩ := pass_eq_again_iff.mp h
  have hrun : p.exchange.Continues (app.ended p).1.exchange := Chain.continues_run 0 app.layers _
  rcases (app.ended p).1.runWork_cases work with ⟨reply, -, -, heq⟩ | ⟨e, status, -, heq⟩
  · rw [heq]
    exact hrun
  · rw [heq]
    exact hrun

theorem App.Begins.continues {app : App σ} {request : Request} {service : Service σ} {n : Nat}
    {p : Passage σ} (h : app.Begins request service n p) :
    (app.begin request).Continues p.exchange := by
  induction h with
  | first => exact .refl _
  | next _ hpass ih => exact ih.trans (continues_of_again hpass)

/-- **A request is handled by its passes**, up to the first that is not followed by another. -/
theorem App.run?_eq_some_iff {app : App σ} {request : Request} {service : Service σ}
    {q : Passage σ} {crash : Option String} :
    app.run? request service = some (q, crash) ↔
      ∃ n p, app.Begins request service n p ∧ app.pass p = .final q crash := by
  constructor
  · intro h
    obtain ⟨p, ⟨n, hp⟩, hpass⟩ := run?_rec (I := fun p => ∃ n, app.Begins request service n p)
      ⟨0, .first⟩ (fun p p' ⟨n, hp⟩ hpass => ⟨n + 1, hp.next hpass⟩) h
    exact ⟨n, p, hp, hpass⟩
  · rintro ⟨n, p, hp, hpass⟩
    obtain ⟨-, hle⟩ := hp.pending_and_le
    obtain ⟨k, hk⟩ := Nat.exists_eq_add_of_le (show n ≤ deferrals (app.begin request) by omega)
    have hrun : app.run? request service = app.passes? (k + 1) p := by
      rw [← hp.passes?_eq, ← Nat.add_assoc, ← hk]
      rfl
    rw [hrun]
    simp only [passes?, hpass]

/-! ## The end of a pass -/

namespace Chain

/-- **Where a pass reaches its end**: the passage in which the end of the chain begins, unless a
middleware ends the pass before. -/
def reached? : Nat → List (Layer σ) → Passage σ → Option (Passage σ)
  | _, [], p => some p
  | position, .timing layer :: rest, p => reached? (position + 1) rest (entered position layer p)
  | position, .custom middleware :: rest, p =>
    match (middleware p.sight).next with
    | .stop _ => none
    | .proceed _ => reached? (position + 1) rest (firstTurn position middleware p)

/-- A pass that reaches its end changes the exchange by edits before and after it. -/
theorem run_of_reached? {position : Nat} {layers : List (Layer σ)} {p q : Passage σ}
    (h : reached? position layers p = some q) :
    p.exchange.Edited q.exchange ∧
      (endpoint q).1.exchange.Edited (run position layers p).1.exchange := by
  induction layers generalizing position p with
  | nil =>
    cases h
    exact ⟨.refl _, .refl _⟩
  | cons layer rest ih =>
    cases layer with
    | timing layer =>
      obtain ⟨hin, hout⟩ := ih h
      rw [run_timing]
      exact ⟨(edited_entered position layer p).trans hin, hout.trans (layer.edited_leave _ _ _)⟩
    | custom middleware =>
      cases hnext : (middleware p.sight).next with
      | stop ending => simp [reached?, hnext] at h
      | proceed after =>
        simp only [reached?, hnext] at h
        obtain ⟨hin, hout⟩ := ih h
        rw [run_proceed hnext]
        exact ⟨(edited_firstTurn position middleware p).trans hin,
          hout.trans (Passage.edited_take _ _)⟩

end Chain

/-! ## The three states -/

namespace Exchange

/-- The request has just come in. -/
def IsNew (x : Exchange σ) : Prop := x.kind = .request ∧ x.reply = none ∧ x.error = none

/-- Deferred work has ended in a reply that is not an error, and nothing has failed. -/
def HasReply (x : Exchange σ) : Prop :=
  x.kind = .resumed ∧ (∃ reply, x.reply = some reply ∧ ∀ e, reply ≠ .ready (.error e)) ∧
    x.error = none

/-- Deferred work has failed, and there is no reply. -/
def HasFailed (x : Exchange σ) : Prop := x.kind = .resumed ∧ x.reply = none ∧ ∃ e, x.error = some e

theorem HasReply.not_hasFailed {x : Exchange σ} (h : x.HasReply) : ¬ x.HasFailed := by
  rintro ⟨-, -, e, he⟩
  exact nomatch h.2.2.symm.trans he

theorem HasFailed.remaining {x : Exchange σ} (h : x.HasFailed) : x.remaining = 0 := by
  simp [Exchange.remaining, h.1, h.2.1]

theorem Edited.kind {x y : Exchange σ} (h : x.Edited y) : y.kind = x.kind := by
  obtain ⟨r, m, -, rfl⟩ := h
  rfl

theorem Edited.reply {x y : Exchange σ} (h : x.Edited y) : y.reply = x.reply := by
  obtain ⟨r, m, -, rfl⟩ := h
  rfl

end Exchange

/-- Deferred work that was run leaves a reply or a failure, if nothing had failed before. -/
theorem Passage.hasReply_or_hasFailed_runWork (p : Passage σ) (work : Work σ)
    (h : p.exchange.error = none) :
    (p.runWork work).exchange.HasReply ∨ (p.runWork work).exchange.HasFailed := by
  rcases p.runWork_cases work with ⟨reply, -, hreply, heq⟩ | ⟨e, status, -, heq⟩
  · rw [heq]
    exact .inl ⟨rfl, ⟨reply, rfl, hreply⟩, h⟩
  · rw [heq]
    exact .inr ⟨rfl, rfl, e, rfl⟩

/-! ## What the end of the chain applies -/

/-- The reply of work, or the message of its crash. -/
def Work.reply : Work σ → Except String (Reply σ)
  | touch _ rest => rest.reply
  | answer response => .ok (.ready (.ok response))
  | fail error => .ok (.ready (.error error))
  | defer later => .ok (.deferred later)
  | crash message => .error message

theorem Work.run_snd (w : Work σ) (s : σ) : (w.run s).2 = w.reply := by
  induction w generalizing s with
  | touch change rest ih => exact ih (change s)
  | answer | fail | defer | crash => rfl

namespace Exchange

/-- **What is due at the end of the chain**, if anything: the reply of the handler, or the message
of its crash, and a 404 without a route; on a later pass the reply at hand. -/
def due? (x : Exchange σ) : Option (Except String (Reply σ)) :=
  match x.kind, x.route with
  | .request, none => some (.ok (.ready (.ok (.bare .notFound))))
  | .request, some route => some (route.handler x.request).reply
  | .resumed, _ => x.reply.map .ok

end Exchange

/-- The passage in which what is due is applied: the handler has been called, or the reply at hand
was taken off. -/
def Passage.atEnd (p : Passage σ) : Passage σ :=
  let reached := p.service.note .endReached
  match p.exchange.kind, p.exchange.route with
  | .request, none => { p with service := reached }
  | .request, some route =>
    let (state, _) := (route.handler p.exchange.request).run p.service.state
    { p with service := { reached.note .handlerCalled with state } }
  | .resumed, _ => { service := reached, exchange := { p.exchange with reply := none } }

theorem Passage.pending_atEnd (p : Passage σ) : p.atEnd.exchange.pending = p.exchange.pending := by
  simp only [atEnd]
  split <;> rfl

namespace Chain

/-- **The end of the chain** applies what is due, and raises nothing of its own. -/
theorem endpoint_eq (p : Passage σ) :
    endpoint p =
      match p.exchange.due? with
      | none => (p.atEnd, .returned (.ok ()))
      | some (.ok reply) => applyReply p.atEnd reply
      | some (.error message) => (p.atEnd, .crashed message) := by
  obtain ⟨service, request, route, response, kind, pending, reply, error, measurement⟩ := p
  cases kind with
  | request =>
    cases route with
    | none => rfl
    | some route =>
      simp only [endpoint, callHandler, Passage.note, Exchange.due?, Passage.atEnd, Work.run_snd]
      cases (route.handler request).reply <;> rfl
  | resumed => cases reply <;> rfl

/-- A reply that leaves work pending is no error. -/
theorem pending_applyReply {p : Passage σ} {reply : Reply σ} {e : ChainError}
    (h : (applyReply p reply).2 = .returned (.error e)) :
    (applyReply p reply).1.exchange.pending = p.exchange.pending := by
  match reply with
  | .ready (.ok response) => cases h
  | .ready (.error e') => cases hs : e'.status <;> simp [applyReply, hs, Exchange.setStatus]
  | .deferred later => cases h

/-- An error that is raised at the end of the chain leaves pending what was pending. -/
theorem pending_of_raised {p : Passage σ} {e : ChainError}
    (h : (endpoint p).2 = .returned (.error e)) :
    (endpoint p).1.exchange.pending = p.exchange.pending := by
  rw [endpoint_eq] at h ⊢
  split at h
  next => cases h
  next reply hdue => exact (pending_applyReply h).trans p.pending_atEnd
  next => cases h

/-- Unless a reply that is an error is at hand, a later pass does not raise at its end. -/
theorem endpoint_of_resumed {p : Passage σ} (hkind : p.exchange.kind = .resumed)
    (hreply : ∀ e, p.exchange.reply ≠ some (.ready (.error e))) :
    (endpoint p).2 = .returned (.ok ()) := by
  have hdue : p.exchange.due? = p.exchange.reply.map .ok := by simp only [Exchange.due?, hkind]
  rw [endpoint_eq, hdue]
  match hr : p.exchange.reply with
  | none => rfl
  | some (.ready (.ok response)) => rfl
  | some (.ready (.error e)) => exact absurd hr (hreply e)
  | some (.deferred later) => rfl

end Chain

/-! ## From pass to pass -/

namespace App

variable {app : App σ} {request : Request} {service : Service σ} {n : Nat} {p q : Passage σ}

/-- After a failure no pass is followed by another. -/
theorem pass_ne_again_of_hasFailed (hpending : p.exchange.pending = none)
    (h : p.exchange.HasFailed) (p' : Passage σ) : app.pass p ≠ .again p' := by
  intro hpass
  obtain ⟨-, hlt⟩ := remaining_lt_of_again hpending hpass
  rw [h.remaining] at hlt
  exact absurd hlt (Nat.not_lt_zero _)

/-- **The state in which a pass begins**: the first is new, every later one has a reply or has
failed. -/
theorem Begins.state (h : app.Begins request service n p) :
    (n = 0 ∧ p.exchange.IsNew) ∨ (0 < n ∧ (p.exchange.HasReply ∨ p.exchange.HasFailed)) := by
  induction h with
  | first =>
    obtain ⟨params, route, hx⟩ := app.begin_fresh request
    exact .inl ⟨rfl, by simp only [start, hx]; exact ⟨rfl, rfl, rfl⟩⟩
  | @next n p p' hp hpass ih =>
    obtain ⟨hpending, -⟩ := hp.pending_and_le
    -- nothing had failed, or this pass would have been the last
    have herror : p.exchange.error = none := by
      rcases ih with ⟨-, hnew⟩ | ⟨-, hreply | hfailed⟩
      · exact hnew.2.2
      · exact hreply.2.2
      · exact absurd hpass (pass_ne_again_of_hasFailed hpending hfailed p')
    obtain ⟨-, work, -, rfl⟩ := pass_eq_again_iff.mp hpass
    obtain ⟨-, hkeeps⟩ := Chain.run_keeps 0 app.layers (opened p)
    exact .inr ⟨Nat.succ_pos n,
      Passage.hasReply_or_hasFailed_runWork _ work (hkeeps.trans herror)⟩

/-- No pass begins with a reply that is an error. -/
theorem Begins.reply_ne_error (h : app.Begins request service n p) (e : HandlerError) :
    p.exchange.reply ≠ some (.ready (.error e)) := by
  intro hp
  rcases h.state with ⟨-, -, hr, -⟩ | ⟨-, ⟨-, ⟨reply, hr, hne⟩, -⟩ | ⟨-, hr, -⟩⟩
  · exact nomatch hr.symm.trans hp
  · exact hne e (Option.some.inj (hr.symm.trans hp))
  · exact nomatch hr.symm.trans hp

/-- An error raised at the end of the chain is raised on the first pass, and no other follows. -/
theorem Begins.of_raised (h : app.Begins request service n p)
    (hq : Chain.reached? 0 app.layers (opened p) = some q) {e : ChainError}
    (he : (Chain.endpoint q).2 = .returned (.error e)) :
    n = 0 ∧ ∀ p', app.pass p ≠ .again p' := by
  obtain ⟨hin, hout⟩ := Chain.run_of_reached? hq
  obtain ⟨hpending, -⟩ := h.pending_and_le
  refine ⟨?_, fun p' hpass => ?_⟩
  · rcases h.state with ⟨hn, -⟩ | ⟨-, hlater⟩
    · exact hn
    · have hkind : q.exchange.kind = .resumed :=
        hin.kind.trans (hlater.elim (fun hr => hr.1) fun hf => hf.1)
      have hreply : ∀ e, q.exchange.reply ≠ some (.ready (.error e)) :=
        fun e hr => h.reply_ne_error e (hin.reply.symm.trans hr)
      exact nomatch (Chain.endpoint_of_resumed hkind hreply).symm.trans he
  · obtain ⟨-, work, hwork, -⟩ := pass_eq_again_iff.mp hpass
    have hnone :=
      hout.pending.trans ((Chain.pending_of_raised he).trans (hin.pending.trans hpending))
    exact nomatch hnone.symm.trans hwork

/-- **The exchange between passes.** When a pass begins, nothing is pending; the first pass finds
the exchange new, and every later one finds either a reply that is no error or a failure that was
answered and kept, and never both. So a later pass raises nothing at its end; what is raised there
is never kept as a failure; and after a failure there is one pass at most. -/
theorem exchange_between_passes (h : app.Begins request service n p) :
    p.exchange.pending = none ∧
    ((n = 0 ∧ p.exchange.IsNew) ∨
      (0 < n ∧ (p.exchange.HasReply ∨ p.exchange.HasFailed) ∧
        ¬ (p.exchange.HasReply ∧ p.exchange.HasFailed))) ∧
    (∀ q, Chain.reached? 0 app.layers (opened p) = some q →
      (q.exchange.kind = .resumed →
        (∀ e, q.exchange.reply ≠ some (.ready (.error e))) ∧
          (Chain.endpoint q).2 = .returned (.ok ())) ∧
      ∀ e, (Chain.endpoint q).2 = .returned (.error e) →
        ∀ m p', app.Begins request service m p' → p'.exchange.error = none) ∧
    (p.exchange.error ≠ none → ∀ p', app.pass p ≠ .again p') := by
  obtain ⟨hpending, -⟩ := h.pending_and_le
  refine ⟨hpending, ?_, ?_, ?_⟩
  · rcases h.state with hnew | ⟨hn, hlater⟩
    · exact .inl hnew
    · exact .inr ⟨hn, hlater, fun ⟨hr, hf⟩ => hr.not_hasFailed hf⟩
  · intro q hq
    obtain ⟨hin, -⟩ := Chain.run_of_reached? hq
    refine ⟨fun hkind => ?_, fun e he m p' hp' => ?_⟩
    · have hreply : ∀ e, q.exchange.reply ≠ some (.ready (.error e)) :=
        fun e hr => h.reply_ne_error e (hin.reply.symm.trans hr)
      exact ⟨hreply, Chain.endpoint_of_resumed hkind hreply⟩
    · obtain ⟨rfl, hlast⟩ := h.of_raised hq he
      rcases hp'.state with ⟨-, hnew⟩ | ⟨hm, -⟩
      · exact hnew.2.2
      · exact absurd hm (Nat.not_lt_of_le (h.le_of_last hlast hp'))
  · intro hkept
    rcases h.state with ⟨-, hnew⟩ | ⟨-, hreply | hfailed⟩
    · exact absurd hnew.2.2 hkept
    · exact absurd hreply.2.2 hkept
    · exact pass_ne_again_of_hasFailed hpending hfailed

end App

/-! ## A failure that is kept -/

namespace Exports

/-- A middleware around a route whose deferred work fails. -/
def outage : App Unit :=
  { routes := routes (.fail { className := "Timeout", message := "late" })
    layers := [.custom .transparent] }

/-- The second pass finds the failure and no reply, raises nothing, and is the last. -/
theorem outage_kept :
    ∃ p, outage.Begins request { state := () } 1 p ∧ p.exchange.HasFailed ∧
      (∃ q, Chain.reached? 0 outage.layers (App.opened p) = some q ∧
        (Chain.endpoint q).2 = .returned (.ok ())) ∧
      ∀ p', outage.pass p ≠ .again p' := by
  obtain ⟨p, hpass, herror⟩ : ∃ p, outage.pass (outage.start request { state := () }) = .again p ∧
      p.exchange.error = some { className := "Timeout", message := "late" } := ⟨_, rfl, rfl⟩
  have hbegins : outage.Begins request { state := () } 1 p := .next .first hpass
  obtain ⟨-, hstate, hend, hlast⟩ := App.exchange_between_passes hbegins
  have hfailed : p.exchange.HasFailed := by
    rcases hstate with ⟨hn, -⟩ | ⟨-, hreply | hfailed, -⟩
    · exact nomatch hn
    · exact nomatch hreply.2.2.symm.trans herror
    · exact hfailed
  have hreached : Chain.reached? 0 outage.layers (App.opened p) =
      some (Chain.firstTurn 0 .transparent (App.opened p)) := rfl
  exact ⟨p, hbegins, hfailed, ⟨_, hreached, ((hend _ hreached).1 hfailed.1).2⟩,
    hlast (by simp [herror])⟩

end Exports

end TimedHttp
