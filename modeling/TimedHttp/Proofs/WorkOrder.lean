import TimedHttp.Proofs.PassCount

/-!
# The order of passes and work

What a request does is settled by the reply of its handler up to one choice: how far it goes. The
reply holds the work that it defers, one inside the other. Every pass that is followed by another
takes the outermost of what is left and hands on the rest, so work is run in the order of its
nesting, between the passes, and nothing twice.

## Main statements

* `Exchange.ahead` — the work that is still ahead of an exchange
* `Chain.pending_run` — what a pass leaves of it
* `App.Begins.ahead` — what is left of it when a pass begins
* `App.course` — passes, call and work in their order
* `App.Begins.state_endpoint`, `Passage.state_runWork` — what call and work do to the state
* `App.runs_in_order` — the course of a request, and how far it goes
-/

namespace TimedHttp

variable {σ : Type}

/-! ## Nested work -/

/-- **The work deferred inside of work**, from the outside in. -/
def Work.nested : Work σ → List (Work σ)
  | touch _ rest => rest.nested
  | defer later => later :: later.nested
  | _ => []

/-- The work that a reply defers, from the outside in. -/
def Reply.nested : Reply σ → List (Work σ)
  | ready _ => []
  | deferred later => later :: later.nested

namespace Work

theorem deferrals_lt_of_mem_nested {w v : Work σ} (h : v ∈ w.nested) :
    v.deferrals < w.deferrals := by
  induction w with
  | touch change rest ih => exact ih h
  | defer later ih =>
    rcases List.mem_cons.mp h with rfl | h
    · exact Nat.lt_succ_self _
    · exact Nat.lt_succ_of_lt (ih h)
  | answer | fail | crash => cases h

/-- Deferred work is told from the work that deferred it by what it still defers. -/
theorem pairwise_nested (w : Work σ) :
    w.nested.Pairwise fun outer inner => inner.deferrals < outer.deferrals := by
  induction w with
  | touch change rest ih => exact ih
  | defer later ih => exact ih.cons fun v hv => deferrals_lt_of_mem_nested hv
  | answer | fail | crash => exact .nil

theorem nested_of_reply {w : Work σ} {reply : Reply σ} (h : w.reply = .ok reply) :
    reply.nested = w.nested := by
  induction w with
  | touch change rest ih => exact ih h
  | answer | fail | defer =>
    cases h
    rfl
  | crash => cases h

theorem nested_of_crash {w : Work σ} {message : String} (h : w.reply = .error message) :
    w.nested = [] := by
  induction w with
  | touch change rest ih => exact ih h
  | answer | fail | defer => cases h
  | crash => rfl

end Work

namespace Exchange

/-- **The work ahead** of an exchange, from the outside in: that of what is due at the end of the
chain. -/
def ahead (x : Exchange σ) : List (Work σ) :=
  match x.due? with
  | some (.ok reply) => reply.nested
  | _ => []

theorem Edited.ahead {x y : Exchange σ} (h : x.Edited y) : y.ahead = x.ahead := by
  obtain ⟨r, m, -, rfl⟩ := h
  rfl

theorem ahead_eq_cons {x : Exchange σ} {work : Work σ} {rest : List (Work σ)}
    (h : x.ahead = work :: rest) :
    x.due? = some (.ok (.deferred work)) ∧ rest = work.nested := by
  unfold ahead at h
  split at h
  next reply hdue =>
    cases reply with
    | ready result => cases h
    | deferred later =>
      cases h
      exact ⟨hdue, rfl⟩
  next => cases h

end Exchange

/-! ## What a pass leaves -/

namespace Chain

theorem pending_endpoint {p : Passage σ} (h : p.exchange.pending = none) :
    (endpoint p).1.exchange.pending = p.exchange.ahead.head? := by
  have hend : p.atEnd.exchange.pending = none := p.pending_atEnd.trans h
  rw [endpoint_eq, Exchange.ahead]
  match p.exchange.due? with
  | none => exact hend
  | some (.error message) => exact hend
  | some (.ok (.ready (.ok response))) => exact hend
  | some (.ok (.ready (.error e))) =>
    cases hs : e.status <;> simp [applyReply, hs, Exchange.setStatus, hend, Reply.nested]
  | some (.ok (.deferred later)) => rfl

/-- A pass that is stopped before its end leaves pending what was pending. -/
theorem pending_of_not_reached {position : Nat} {layers : List (Layer σ)} {p : Passage σ}
    (h : reached? position layers p = none) :
    (run position layers p).1.exchange.pending = p.exchange.pending := by
  induction layers generalizing position p with
  | nil => cases h
  | cons layer rest ih =>
    cases layer with
    | timing layer =>
      have hout := layer.edited_leave (measured position layer p)
        (run (position + 1) rest (entered position layer p)).1
        (run (position + 1) rest (entered position layer p)).2
      rw [run_timing]
      exact hout.pending.trans ((ih h).trans (edited_entered position layer p).pending)
    | custom middleware =>
      have hin := (edited_firstTurn position middleware p).pending
      cases hnext : (middleware p.sight).next with
      | stop ending =>
        rw [run_stop hnext]
        exact hin
      | proceed after =>
        simp only [reached?, hnext] at h
        rw [run_proceed hnext]
        exact (Passage.edited_take _ _).pending.trans ((ih h).trans hin)

/-- **What a pass leaves pending**: the outermost of the work ahead, if it reaches its end. -/
theorem pending_run {position : Nat} {layers : List (Layer σ)} {p : Passage σ}
    (h : p.exchange.pending = none) :
    (run position layers p).1.exchange.pending =
      if (reached? position layers p).isSome then p.exchange.ahead.head? else none := by
  cases hq : reached? position layers p with
  | none =>
    rw [pending_of_not_reached hq, h]
    rfl
  | some q =>
    obtain ⟨hin, hout⟩ := run_of_reached? hq
    rw [hout.pending, pending_endpoint (hin.pending.trans h), hin.ahead]
    rfl

end Chain

/-- Deferred work that was run leaves ahead what it defers. -/
theorem Passage.ahead_runWork (p : Passage σ) (work : Work σ) :
    (p.runWork work).exchange.ahead = work.nested := by
  rcases p.runWork_cases work with ⟨reply, hrun, -, heq⟩ | ⟨e, status, hfails, heq⟩
  · rw [heq]
    rw [Work.run_snd] at hrun
    exact Work.nested_of_reply hrun
  · rw [heq]
    rcases hfails with hrun | ⟨message, hrun, -⟩
    · rw [Work.run_snd] at hrun
      exact Work.nested_of_reply hrun
    · rw [Work.run_snd] at hrun
      exact (Work.nested_of_crash hrun).symm

namespace App

variable {app : App σ} {request : Request} {service : Service σ} {n : Nat} {p p' : Passage σ}

/-- **The work of a request**: all that the reply of its handler defers, from the outside in. -/
def works (app : App σ) (request : Request) : List (Work σ) :=
  match (app.begin request).route with
  | none => []
  | some route => (route.handler (app.begin request).request).nested

theorem ahead_begin (app : App σ) (request : Request) :
    (app.begin request).ahead = app.works request := by
  obtain ⟨params, route, hx⟩ := app.begin_fresh request
  rw [works, hx]
  cases route with
  | none => rfl
  | some route =>
    simp only [Exchange.ahead, Exchange.due?, Exchange.fresh]
    cases hreply : (route.handler { request with params }).reply with
    | ok reply => exact Work.nested_of_reply hreply
    | error message => exact (Work.nested_of_crash hreply).symm

theorem pairwise_works (app : App σ) (request : Request) :
    (app.works request).Pairwise fun outer inner => inner.deferrals < outer.deferrals := by
  unfold works
  split
  · exact .nil
  · exact Work.pairwise_nested _

/-- **From pass to pass** the outermost work is run, and the rest is left. -/
theorem ahead_of_again (hp : p.exchange.pending = none) (h : app.pass p = .again p') :
    ∃ work, p.exchange.ahead = work :: p'.exchange.ahead ∧
      (app.ended p).1.exchange.pending = some work ∧ p' = (app.ended p).1.runWork work := by
  obtain ⟨-, work, hwork, rfl⟩ := pass_eq_again_iff.mp h
  have hrun : (if (Chain.reached? 0 app.layers (opened p)).isSome then
      p.exchange.ahead.head? else none) = some work :=
    (Chain.pending_run (p := opened p) hp).symm.trans hwork
  split at hrun
  next =>
    obtain ⟨rest, hrest⟩ := List.head?_eq_some_iff.mp hrun
    obtain ⟨-, rfl⟩ := Exchange.ahead_eq_cons hrest
    exact ⟨work, by rw [hrest, Passage.ahead_runWork], hwork, rfl⟩
  next => cases hrun

/-- **When a pass begins**, each pass before it has taken one work off. -/
theorem Begins.ahead (h : app.Begins request service n p) :
    n ≤ (app.works request).length ∧ p.exchange.ahead = (app.works request).drop n := by
  induction h with
  | first => exact ⟨Nat.zero_le _, app.ahead_begin request⟩
  | @next n p p' hp hpass ih =>
    obtain ⟨work, hahead, -, -⟩ := ahead_of_again hp.pending_and_le.1 hpass
    have hdrop : (app.works request).drop n = work :: p'.exchange.ahead := ih.2.symm.trans hahead
    refine ⟨?_, ?_⟩
    · have hlength := congrArg List.length hdrop
      rw [List.length_drop, List.length_cons] at hlength
      omega
    · rw [← List.tail_drop, hdrop, List.tail_cons]

end App

/-! ## Beats -/

/-- **Beat** of a request: a pass begins or ends, the handler is called, or deferred work is run
that will itself defer so often. -/
inductive Beat where
  | began (kind : PassKind)
  | called
  | ended
  | ran (deferrals : Nat)
  deriving DecidableEq

def Entry.beat? : Entry → Option Beat
  | passBegan kind => some (.began kind)
  | handlerCalled => some .called
  | passEnded _ => some .ended
  | workRan deferrals => some (.ran deferrals)
  | _ => none

theorem Entry.IsAside.beat? {e : Entry} (h : e.IsAside) : e.beat? = none := by
  obtain ⟨⟨⟨hbegan, hended⟩, hran⟩, hcalled⟩ := h
  cases e with
  | passBegan kind => exact absurd rfl (hbegan kind)
  | passEnded ending => exact absurd rfl (hended ending)
  | workRan deferrals => exact absurd rfl (hran deferrals)
  | handlerCalled => exact absurd rfl hcalled
  | _ => rfl

/-- The beat of a call to the handler, if there is one. -/
def Beat.call (called : Bool) : List Beat := if called then [.called] else []

/-- The handler is called at the end of a pass: of the first, if the request matched a route. -/
def Exchange.calls (x : Exchange σ) : Bool := x.kind = .request && x.route.isSome

theorem Exchange.Edited.calls {x y : Exchange σ} (h : x.Edited y) : y.calls = x.calls := by
  obtain ⟨r, m, -, rfl⟩ := h
  rfl

namespace Chain

/-- What is written at the end of a pass. -/
def endEntries (x : Exchange σ) : List Entry :=
  .endReached :: if x.calls then [.handlerCalled] else []

theorem service_endpoint (p : Passage σ) : (endpoint p).1.service = p.atEnd.service := by
  rw [endpoint_eq]
  split
  · rfl
  · exact service_applyReply _ _
  · rfl

theorem journal_endpoint (p : Passage σ) :
    (endpoint p).1.service.journal = p.service.journal ++ endEntries p.exchange := by
  rw [service_endpoint]
  obtain ⟨service, request, route, response, kind, pending, reply, error, measurement⟩ := p
  cases kind with
  | request =>
    cases route with
    | none => rfl
    | some route => exact List.append_assoc _ _ _
  | resumed => rfl

/-- At the end of a first pass, the handler of the route is run on the state. -/
theorem state_endpoint (p : Passage σ) :
    (endpoint p).1.service.state =
      if p.exchange.kind = .request then
        p.exchange.route.elim p.service.state fun route =>
          ((route.handler p.exchange.request).run p.service.state).1
      else p.service.state := by
  rw [service_endpoint]
  obtain ⟨service, request, route, response, kind, pending, reply, error, measurement⟩ := p
  cases kind with
  | request => cases route <;> rfl
  | resumed => rfl

theorem beats_endpoint (p : Passage σ) :
    p.service.Gains Entry.beat? (endpoint p).1.service (Beat.call p.exchange.calls) := by
  refine ⟨_, journal_endpoint p, ?_⟩
  simp only [endEntries]
  cases p.exchange.calls <;> rfl

/-- **The beats of the stages**: the call of the handler, if the pass reaches its end. -/
theorem beats_run (position : Nat) (layers : List (Layer σ)) (p : Passage σ) :
    p.service.Gains Entry.beat? (run position layers p).1.service
      (Beat.call ((reached? position layers p).isSome && p.exchange.calls)) := by
  have haside : ∀ e : Entry, e.IsAside → e.beat? = none := fun e h => h.beat?
  induction layers generalizing position p with
  | nil => exact beats_endpoint p
  | cons layer rest ih =>
    cases layer with
    | timing layer =>
      have hinner := ih (position + 1) (entered position layer p)
      rw [(edited_entered position layer p).calls] at hinner
      rw [run_timing]
      exact .around haside (adds_entered position layer p) hinner
        (((adds_leave layer _ _ _).mono fun _ h => h.isAside).trans
          (.note _ (Entry.isAside_layerLeft _ _)))
    | custom middleware =>
      have hfirst : p.service.Adds Entry.IsAside (firstTurn position middleware p).service :=
        .of_quiet (quiet_firstTurn position middleware p (Entry.isAside_layerEntered position))
      cases hnext : (middleware p.sight).next with
      | stop ending =>
        simp only [reached?, hnext]
        rw [run_stop hnext]
        exact .of_adds (hfirst.trans (.note _ (Entry.isAside_layerLeft _ _))) haside
      | proceed after =>
        have hinner := ih (position + 1) (firstTurn position middleware p)
        rw [(edited_firstTurn position middleware p).calls] at hinner
        simp only [reached?, hnext]
        rw [run_proceed hnext]
        exact .around haside hfirst hinner
          (.of_quiet ((Passage.quiet_take _ _).trans (.note _ (Entry.isAside_layerLeft _ _))))

end Chain

theorem Passage.beats_runWork (p : Passage σ) (work : Work σ) :
    p.service.Gains Entry.beat? (p.runWork work).service [.ran work.deferrals] := by
  rcases p.runWork_cases work with ⟨reply, -, -, heq⟩ | ⟨e, status, -, heq⟩
  · rw [heq]
    exact ⟨_, rfl, rfl⟩
  · rw [heq]
    exact ⟨_, rfl, rfl⟩

/-- Deferred work is run once, on the state in which the pass ended. -/
theorem Passage.state_runWork (p : Passage σ) (work : Work σ) :
    (p.runWork work).service.state = (work.run p.service.state).1 := by
  rcases p.runWork_cases work with ⟨reply, -, -, heq⟩ | ⟨e, status, -, heq⟩ <;> rw [heq]

theorem Passage.state_answerError (p : Passage σ) (e : ChainError) :
    (p.answerError e).service.state = p.service.state := by
  obtain ⟨readings, measurements, heq, -⟩ := p.answerError_eq_aftermath e
  rw [heq]

theorem Passage.beats_answerError (p : Passage σ) (e : ChainError) :
    p.service.Gains Entry.beat? (p.answerError e).service [] := by
  obtain ⟨readings, measurements, heq, -⟩ := p.answerError_eq_aftermath e
  rw [heq]
  refine ⟨p.aftermath e, rfl, List.filterMap_eq_nil_iff.mpr fun entry hentry => ?_⟩
  rcases eq_of_mem_aftermath hentry with ⟨event, rfl⟩ | ⟨registry, rfl⟩ <;> rfl

namespace App

variable {app : App σ} {request : Request} {service : Service σ} {n : Nat} {p q : Passage σ}

/-- The handler is called on a pass: it is the first one, it reaches its end, and the request
matched a route. -/
def calls (app : App σ) (p : Passage σ) : Bool :=
  (Chain.reached? 0 app.layers (opened p)).isSome && p.exchange.calls

theorem beats_ended (app : App σ) (p : Passage σ) :
    p.service.Gains Entry.beat? (app.ended p).1.service
      (.began p.exchange.kind :: (Beat.call (app.calls p) ++ [.ended])) := by
  have hopened : p.service.Gains Entry.beat? (opened p).service [.began p.exchange.kind] :=
    ⟨[_], rfl, rfl⟩
  have hended : (Chain.run 0 app.layers (opened p)).1.service.Gains Entry.beat?
      (app.ended p).1.service [.ended] := ⟨[_], rfl, rfl⟩
  exact hopened.trans ((Chain.beats_run 0 app.layers (opened p)).trans hended)

/-- **The course of a request** on which the handler is called or not, and the given work is run:
the first pass, and then each work followed by a pass of its own. -/
def course (called : Bool) (works : List (Work σ)) : List Beat :=
  .began .request :: (Beat.call called ++ .ended ::
    works.flatMap fun work => [.ran work.deferrals, .began .resumed, .ended])

theorem course_concat (called : Bool) (works : List (Work σ)) (work : Work σ) :
    course called (works ++ [work]) =
      course called works ++ [.ran work.deferrals, .began .resumed, .ended] := by
  simp [course, List.flatMap_append]

/-- **When a pass has ended**, as much work was run as passes came before it. -/
theorem Begins.course (h : app.Begins request service n p) :
    service.Gains Entry.beat? (app.ended p).1.service
      (course (app.calls (app.start request service)) ((app.works request).take n)) := by
  induction h with
  | first =>
    obtain ⟨params, route, hx⟩ := app.begin_fresh request
    have hkind : (app.start request service).exchange.kind = .request := by
      rw [start, hx]
      rfl
    have hbeats := app.beats_ended (app.start request service)
    rw [hkind] at hbeats
    exact hbeats
  | @next n p p' hp hpass ih =>
    obtain ⟨work, hahead, -, hran⟩ := ahead_of_again hp.pending_and_le.1 hpass
    have htake : (app.works request).take (n + 1) = (app.works request).take n ++ [work] := by
      have hdrop := hp.ahead.2.symm.trans hahead
      rw [List.take_add, hdrop]
      rfl
    have hkind : p'.exchange.kind = .resumed := by
      rcases (hp.next hpass).state with ⟨hn, -⟩ | ⟨-, hreply | hfailed⟩
      · cases hn
      · exact hreply.1
      · exact hfailed.1
    -- the handler is called on no pass but the first
    have hcalls : app.calls p' = false := by simp [calls, Exchange.calls, hkind]
    have hbeats := app.beats_ended p'
    rw [hkind, hcalls] at hbeats
    have hwork : (app.ended p).1.service.Gains Entry.beat? p'.service [.ran work.deferrals] := by
      rw [hran]
      exact Passage.beats_runWork _ work
    rw [htake, course_concat]
    exact ih.trans (hwork.trans hbeats)

/-- The state of the application after the handler of a request has run on it, if there is one. -/
def stateCalled (app : App σ) (request : Request) (state : σ) : σ :=
  (app.begin request).route.elim state fun route =>
    ((route.handler (app.begin request).request).run state).1

/-- **At the end of the chain**, the handler is run once on the first pass. On later passes nothing
happens to the state there. -/
theorem Begins.state_endpoint (h : app.Begins request service n p)
    (hreached : Chain.reached? 0 app.layers (opened p) = some q) :
    (Chain.endpoint q).1.service.state =
      if n = 0 then app.stateCalled request q.service.state else q.service.state := by
  obtain ⟨response, measurement, -, hq⟩ := (Chain.run_of_reached? hreached).1
  rw [Chain.state_endpoint, hq]
  rcases h.state with ⟨rfl, hnew⟩ | ⟨hpos, hlater⟩
  · obtain rfl := h.unique .first
    rw [if_pos (show (opened (app.start request service)).exchange.kind = .request from hnew.1),
      if_pos rfl]
    rfl
  · have hkind : (opened p).exchange.kind = .resumed := hlater.elim (·.1) (·.1)
    rw [if_neg (by simp [hkind]), if_neg (Nat.ne_of_gt hpos)]

/-- A pass that is not the last is followed by another. -/
theorem Begins.again_of_lt {m : Nat} {last : Passage σ} (h : app.Begins request service n p)
    (hlast : app.Begins request service m last) (hlt : n < m) : ∃ p', app.pass p = .again p' := by
  cases hpass : app.pass p with
  | again p' => exact ⟨p', rfl⟩
  | final q crash =>
    have hle : m ≤ n := h.le_of_last (fun p' hagain => nomatch hpass.symm.trans hagain) hlast
    omega

/-- While work is ahead, a pass that reaches its end and returns without an error is followed by
another. -/
theorem pass_eq_again_of_ahead (hp : p.exchange.pending = none) (hahead : p.exchange.ahead ≠ [])
    (hreached : (Chain.reached? 0 app.layers (opened p)).isSome)
    (hok : (app.ended p).2 = .returned (.ok ())) : ∃ p', app.pass p = .again p' := by
  obtain ⟨work, rest, hcons⟩ := List.exists_cons_of_ne_nil hahead
  have hpending : (app.ended p).1.exchange.pending = some work := by
    refine (Chain.pending_run (p := opened p) hp).trans ?_
    rw [if_pos hreached]
    exact congrArg List.head? hcons
  exact ⟨_, pass_eq_again_iff.mpr ⟨hok, work, hpending, rfl⟩⟩

/-- **A request runs in order, and nothing twice**, whatever its layers and its handler do. Let
`works` be what the reply of the handler defers, from the outside in; each of it defers less often
than the one before, so the journal tells one from the other. The request ends after `last + 1`
passes, at most one more than there is work. The handler is called on the first of them, or not at
all. Each pass but the last leaves the work of its number, which is run when that pass has ended and
before the next one begins.

The state of the application shows the same. Where the first pass reaches its end, the handler is
run on the state once, and where a later one does, nothing is. Each pass but the first begins in the
state that one run of the work left of the state in which the pass before had ended. Nothing is run
after the last pass.

If no pass is stopped before its end, and none ends in an error or a crash, then all the work is
run. Work that fails or crashes defers nothing, so it is the last in any case. -/
theorem runs_in_order (app : App σ) (request : Request) (service : Service σ) :
    let works := app.works request
    works.Pairwise (fun outer inner => inner.deferrals < outer.deferrals) ∧
    ∃ q crash last,
      app.run? request service = some (q, crash) ∧
      app.handle request service = (q.service, crash.elim (.ok q.exchange.response) .error) ∧
      last ≤ works.length ∧
      (∃ entries, q.service.journal = service.journal ++ entries ∧
        entries.filterMap Entry.beat? =
          course (app.calls (app.start request service)) (works.take last)) ∧
      (∀ n p, app.Begins request service n p → n ≤ last ∧
        (∀ inner, Chain.reached? 0 app.layers (opened p) = some inner →
          (Chain.endpoint inner).1.service.state =
            if n = 0 then app.stateCalled request inner.service.state
            else inner.service.state) ∧
        (n < last → ∃ work, works[n]? = some work ∧
          (app.ended p).1.exchange.pending = some work ∧
          app.pass p = .again ((app.ended p).1.runWork work) ∧
          ((app.ended p).1.runWork work).service.state =
            (work.run (app.ended p).1.service.state).1) ∧
        (n = last → q.service.state = (app.ended p).1.service.state)) ∧
      ((∀ n p, app.Begins request service n p →
          (Chain.reached? 0 app.layers (opened p)).isSome ∧
            (app.ended p).2 = .returned (.ok ())) →
        last = works.length) := by
  intro works
  obtain ⟨q, crash, hrun⟩ := app.exists_run? request service
  obtain ⟨last, p, hp, hpass⟩ := run?_eq_some_iff.mp hrun
  have hlast : ∀ p', app.pass p ≠ .again p' := fun p' hagain => nomatch hpass.symm.trans hagain
  refine ⟨app.pairwise_works request, q, crash, last, hrun, handle_of_run? hrun, hp.ahead.1,
    ?_, ?_, ?_⟩
  · rcases pass_eq_final_iff.mp hpass with ⟨message, -, rfl, -⟩ | ⟨e, -, rfl, -⟩ | ⟨-, -, rfl, -⟩
    · exact hp.course
    · have hcourse := hp.course.trans (Passage.beats_answerError _ e)
      rwa [List.append_nil] at hcourse
    · exact hp.course
  · intro n p' hp'
    refine ⟨hp.le_of_last hlast hp', fun inner => hp'.state_endpoint, fun hlt => ?_, ?_⟩
    · obtain ⟨p'', hagain⟩ := hp'.again_of_lt hp hlt
      obtain ⟨work, hahead, hpending, rfl⟩ := ahead_of_again hp'.pending_and_le.1 hagain
      refine ⟨work, ?_, hpending, hagain, Passage.state_runWork _ work⟩
      rw [← List.head?_drop, ← hp'.ahead.2, hahead]
      rfl
    · rintro rfl
      obtain rfl := hp'.unique hp
      rcases pass_eq_final_iff.mp hpass with ⟨_, -, rfl, -⟩ | ⟨e, -, rfl, -⟩ | ⟨-, -, rfl, -⟩
      · rfl
      · exact Passage.state_answerError _ e
      · rfl
  · intro hall
    obtain ⟨hreached, hok⟩ := hall last p hp
    refine Nat.le_antisymm hp.ahead.1 (Nat.le_of_not_lt fun hlt => ?_)
    have hahead : p.exchange.ahead ≠ [] := by
      rw [hp.ahead.2]
      exact fun hnil => Nat.not_le_of_lt hlt (List.drop_eq_nil_iff.mp hnil)
    obtain ⟨p', hagain⟩ := pass_eq_again_of_ahead hp.pending_and_le.1 hahead hreached hok
    exact hlast p' hagain

end App

/-! ## Work in two parts -/

namespace Exports

/-- A timing layer inside of a middleware, around a route that defers twice. -/
def relay : App Unit :=
  { routes := routes (.defer (.answer (.bare .created)))
    layers := [.custom .transparent, .timing { registry := 0 }] }

/-- All three passes reach their end and return, so both parts of the work are run. -/
theorem relay_in_order :
    ∃ q crash, relay.run? request { state := () } = some (q, crash) ∧
      q.service.journal.filterMap Entry.beat? =
        [.began .request, .called, .ended, .ran 1, .began .resumed, .ended, .ran 0,
          .began .resumed, .ended] := by
  obtain ⟨-, q, crash, last, hrun, -, -, ⟨entries, hjournal, hbeats⟩, -, hall⟩ :=
    relay.runs_in_order request { state := () }
  have hlast : last = 2 := by
    refine hall fun n p hp => ⟨rfl, ?_⟩
    -- both layers hand on how the end of the chain ended
    have hended : (relay.ended p).2 = (Chain.endpoint (Chain.entered 1 { registry := 0 }
        (Chain.firstTurn 0 .transparent (App.opened p)))).2 := rfl
    rcases hp.state with ⟨rfl, -⟩ | ⟨-, hlater⟩
    · rw [hp.unique .first]
      rfl
    · rw [hended]
      have hin := (Chain.edited_firstTurn 0 .transparent (App.opened p)).trans
        (Chain.edited_entered 1 { registry := 0 } _)
      refine Chain.endpoint_of_resumed (hin.kind.trans (hlater.elim (·.1) (·.1))) fun e he => ?_
      exact hp.reply_ne_error e (hin.reply.symm.trans he)
  refine ⟨q, crash, hrun, ?_⟩
  rw [hjournal, List.nil_append, hbeats, hlast]
  rfl

end Exports

end TimedHttp
