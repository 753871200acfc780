import TimedHttp.Dispatch.App

/-!
# Passes of a request

How one pass through the chain unfolds, what it can lead to, and why a request has a last pass: the
work that is still at hand defers less often after each pass than before it.

## Main statements

* `Chain.run_rec` — induction over the stages of a pass
* `App.run?_rec` — induction over the passes of a request
* `App.exists_run?` — every request has a last pass
-/

namespace TimedHttp

variable {σ : Type}

/-! ## One pass -/

namespace Chain

/-- The passage in which the inner stages of a timing layer begin. -/
def entered (position : Nat) (layer : TimingLayer σ) (p : Passage σ) : Passage σ :=
  (layer.enter (p.note (.layerEntered position))).2.note
    (.measuring position (layer.enter (p.note (.layerEntered position))).1)

/-- The number of the measurement that a timing layer has at hand. -/
def measured (position : Nat) (layer : TimingLayer σ) (p : Passage σ) : Nat :=
  (layer.enter (p.note (.layerEntered position))).1

/-- The passage after the first turn of a middleware. -/
def firstTurn (position : Nat) (middleware : Middleware σ) (p : Passage σ) : Passage σ :=
  (p.note (.layerEntered position)).take (middleware p.sight)

theorem run_timing (position : Nat) (layer : TimingLayer σ) (rest : List (Layer σ))
    (p : Passage σ) :
    run position (.timing layer :: rest) p =
      let inner := run (position + 1) rest (entered position layer p)
      ((layer.leave (measured position layer p) inner.1 inner.2).note
        (.layerLeft position inner.2), inner.2) := rfl

theorem run_stop {position : Nat} {middleware : Middleware σ} {rest : List (Layer σ)}
    {p : Passage σ} {ending : Ending} (h : (middleware p.sight).next = .stop ending) :
    run position (.custom middleware :: rest) p =
      ((firstTurn position middleware p).note (.layerLeft position ending), ending) := by
  simp only [run]
  split
  next e he => cases h.symm.trans he; rfl
  next after he => cases h.symm.trans he

theorem run_proceed {position : Nat} {middleware : Middleware σ} {rest : List (Layer σ)}
    {p : Passage σ} {after : Sight σ → Ending → Turn σ Ending}
    (h : (middleware p.sight).next = .proceed after) :
    run position (.custom middleware :: rest) p =
      let inner := run (position + 1) rest (firstTurn position middleware p)
      let turn := after inner.1.sight inner.2
      ((inner.1.take turn).note (.layerLeft position turn.next), turn.next) := by
  simp only [run]
  split
  next e he => cases h.symm.trans he
  next after' he => cases h.symm.trans he; rfl

/-- **Induction over the stages of a pass**: what holds of the end of the chain, and holds of a
layer if it holds of the stages inside, holds of the whole pass. -/
theorem run_rec {motive : Nat → List (Layer σ) → Passage σ → Passage σ → Ending → Prop}
    (nil : ∀ position p, motive position [] p (endpoint p).1 (endpoint p).2)
    (timing : ∀ position layer rest p q ending,
      motive (position + 1) rest (entered position layer p) q ending →
      motive position (.timing layer :: rest) p
        ((layer.leave (measured position layer p) q ending).note (.layerLeft position ending))
        ending)
    (stop : ∀ position middleware rest p ending, (middleware p.sight).next = .stop ending →
      motive position (.custom middleware :: rest) p
        ((firstTurn position middleware p).note (.layerLeft position ending)) ending)
    (proceed : ∀ position middleware rest p after q ending,
      (middleware p.sight).next = .proceed after →
      motive (position + 1) rest (firstTurn position middleware p) q ending →
      motive position (.custom middleware :: rest) p
        ((q.take (after q.sight ending)).note (.layerLeft position (after q.sight ending).next))
        (after q.sight ending).next)
    (position : Nat) (layers : List (Layer σ)) (p : Passage σ) :
    motive position layers p (run position layers p).1 (run position layers p).2 := by
  -- the inner stages begin in another passage, at the next position
  induction layers generalizing position p with
  | nil => exact nil position p
  | cons layer rest ih =>
    cases layer with
    | timing layer =>
      rw [run_timing]
      exact timing _ _ _ _ _ _ (ih _ _)
    | custom middleware =>
      cases h : (middleware p.sight).next with
      | stop ending =>
        rw [run_stop h]
        exact stop _ _ _ _ _ h
      | proceed after =>
        rw [run_proceed h]
        exact proceed _ _ _ _ _ _ _ h (ih _ _)

end Chain

/-! ## Where the timing layers stand -/

def Layer.isTiming : Layer σ → Bool
  | timing _ => true
  | custom _ => false

/-- A timing layer stands at the position. -/
def App.timesAt (app : App σ) (position : Nat) : Bool :=
  (app.layers[position]?).any Layer.isTiming

/-- The positions from the given one on hold these layers, as far as timing goes. -/
def Chain.TimedAs (timed : Nat → Bool) (position : Nat) (layers : List (Layer σ)) : Prop :=
  ∀ i, timed (position + i) = (layers[i]?).any Layer.isTiming

namespace Chain.TimedAs

variable {timed : Nat → Bool} {position : Nat} {layer : Layer σ} {rest : List (Layer σ)}

theorem of_app (app : App σ) : TimedAs app.timesAt 0 app.layers := by
  intro i
  rw [Nat.zero_add]
  rfl

theorem head (h : TimedAs timed position (layer :: rest)) : timed position = layer.isTiming :=
  h 0

theorem tail (h : TimedAs timed position (layer :: rest)) : TimedAs timed (position + 1) rest := by
  intro i
  rw [Nat.add_assoc, Nat.add_comm 1 i]
  exact h (i + 1)

end Chain.TimedAs

/-! ## From pass to pass -/

namespace App

/-- The passage in which a pass reaches the chain. -/
def opened (p : Passage σ) : Passage σ := p.note (.passBegan p.exchange.kind)

/-- The passage in which the chain has ended, and how it ended. -/
def ended (app : App σ) (p : Passage σ) : Passage σ × Ending :=
  let last := Chain.run 0 app.layers (opened p)
  (last.1.note (.passEnded last.2), last.2)

/-- The chain has ended when the timing layer, outermost, leaves what its inner stages left. -/
theorem ended_of_timing {app : App σ} {layer : TimingLayer σ} {layers : List (Layer σ)}
    (happ : app.layers = .timing layer :: layers) (p : Passage σ) :
    app.ended p =
      let inner := Chain.run 1 layers (Chain.entered 0 layer (opened p))
      (((layer.leave (Chain.measured 0 layer (opened p)) inner.1 inner.2).note
        (.layerLeft 0 inner.2)).note (.passEnded inner.2), inner.2) := by
  simp only [ended, happ, Chain.run_timing]

/-- **Another pass follows** exactly if the chain returned without an error and left work. -/
theorem pass_eq_again_iff {app : App σ} {p p' : Passage σ} :
    app.pass p = .again p' ↔
      (app.ended p).2 = .returned (.ok ()) ∧
        ∃ work, (app.ended p).1.exchange.pending = some work ∧
          p' = (app.ended p).1.runWork work := by
  simp only [pass, ended, opened]
  split
  next h => simp [h]
  next h => simp [h]
  next h =>
    simp only [h, true_and]
    split
    next hw => simp [hw]
    next work hw => simp [hw, eq_comm]

/-- **The last pass**: the chain crashed, or returned an error, or left no work. -/
theorem pass_eq_final_iff {app : App σ} {p q : Passage σ} {crash : Option String} :
    app.pass p = .final q crash ↔
      (∃ message, (app.ended p).2 = .crashed message ∧
        q = (app.ended p).1 ∧ crash = some message) ∨
      (∃ e, (app.ended p).2 = .returned (.error e) ∧
        q = (app.ended p).1.answerError e ∧ crash = none) ∨
      ((app.ended p).2 = .returned (.ok ()) ∧ (app.ended p).1.exchange.pending = none ∧
        q = (app.ended p).1 ∧ crash = none) := by
  simp only [pass, ended, opened]
  split
  next h => simp [h, eq_comm]
  next h => simp [h, eq_comm]
  next h =>
    simp only [h, true_and]
    split
    next hw => simp [hw, eq_comm]
    next work hw => simp [hw]

/-- **Induction over the passes of a request**: what holds when the first pass begins, and after
each pass that is followed by another, holds when the last pass begins. -/
theorem passes?_rec {app : App σ} {I : Passage σ → Prop}
    (again : ∀ p p', I p → app.pass p = .again p' → I p')
    {n : Nat} {p q : Passage σ} {crash : Option String} (hp : I p)
    (h : app.passes? n p = some (q, crash)) : ∃ last, I last ∧ app.pass last = .final q crash := by
  induction n generalizing p with
  | zero => cases h
  | succ n ih =>
    simp only [passes?] at h
    split at h
    next q' crash' hpass =>
      cases h
      exact ⟨p, hp, hpass⟩
    next p' hpass => exact ih (again p p' hp hpass) h

/-- The passage in which a request begins. -/
def start (app : App σ) (request : Request) (service : Service σ) : Passage σ :=
  { service, exchange := app.begin request }

theorem run?_rec {app : App σ} {I : Passage σ → Prop} {request : Request} {service : Service σ}
    {q : Passage σ} {crash : Option String} (first : I (app.start request service))
    (again : ∀ p p', I p → app.pass p = .again p' → I p')
    (h : app.run? request service = some (q, crash)) :
    ∃ last, I last ∧ app.pass last = .final q crash :=
  passes?_rec again first h

end App

/-! ## What the stages leave alone -/

/-- The second exchange is the first with perhaps another response, and with a measurement attached
if the first had none. -/
def Exchange.Edited (x y : Exchange σ) : Prop :=
  ∃ response measurement, (∀ m, x.measurement = some m → measurement = some m) ∧
    y = { x with response, measurement }

namespace Exchange.Edited

variable {x y z : Exchange σ}

theorem refl (x : Exchange σ) : x.Edited x := ⟨x.response, x.measurement, fun _ h => h, rfl⟩

theorem trans (hxy : x.Edited y) (hyz : y.Edited z) : x.Edited z := by
  obtain ⟨r, m, hm, rfl⟩ := hxy
  obtain ⟨r', m', hm', rfl⟩ := hyz
  exact ⟨r', m', fun n hn => hm' n (hm n hn), rfl⟩

theorem setResponse (x : Exchange σ) (response : Response) : x.Edited (x.setResponse response) :=
  ⟨response, x.measurement, fun _ h => h, rfl⟩

theorem pending (h : x.Edited y) : y.pending = x.pending := by
  obtain ⟨r, m, -, rfl⟩ := h
  rfl

theorem error (h : x.Edited y) : y.error = x.error := by
  obtain ⟨r, m, -, rfl⟩ := h
  rfl

theorem measurement (h : x.Edited y) {m : Nat} (hm : x.measurement = some m) :
    y.measurement = some m := by
  obtain ⟨r, m', h, rfl⟩ := h
  exact h m hm

end Exchange.Edited

theorem Edit.edited_apply (x : Exchange σ) (e : Edit) : x.Edited (e.apply x) := by
  cases e with
  | setStatus status => exact .setResponse x { x.response with status }
  | setResponse response => exact .setResponse x response
  | attach measurement =>
    simp only [Edit.apply, Exchange.attach]
    split
    next h =>
      refine ⟨x.response, some measurement, ?_, rfl⟩
      intro m hm
      cases h.symm.trans hm
    next => exact .refl x

theorem Passage.edited_take {α : Type} (p : Passage σ) (turn : Turn σ α) :
    p.exchange.Edited (p.take turn).exchange := by
  have hfold : ∀ (edits : List Edit) (x : Exchange σ), x.Edited (edits.foldl Edit.apply x) := by
    intro edits
    induction edits with
    | nil => exact .refl
    | cons e edits ih => exact fun x => (Edit.edited_apply x e).trans (ih _)
  exact hfold turn.edits p.exchange

namespace TimingLayer

theorem edited_enter (layer : TimingLayer σ) (p : Passage σ) :
    p.exchange.Edited (layer.enter p).2.exchange := by
  simp only [enter]
  split
  next => exact .refl _
  next => exact Edit.edited_apply p.exchange (.attach _)

theorem edited_leave (layer : TimingLayer σ) (measurement : Nat) (p : Passage σ)
    (ending : Ending) : p.exchange.Edited (layer.leave measurement p ending).exchange := by
  match ending with
  | .crashed _ => exact .refl _
  | .returned (.error e) => exact .setResponse _ { p.exchange.response with status := _ }
  | .returned (.ok ()) =>
    simp only [leave]
    split <;> exact .refl _

end TimingLayer

/-- The end of the chain changes what the exchange answers and what it still has to do. -/
def Exchange.Answered (x y : Exchange σ) : Prop :=
  ∃ response pending reply, y = { x with response, pending, reply }

/-- **Continues**: the second exchange is of the same request, on the same route. -/
def Exchange.Continues (x y : Exchange σ) : Prop := y.request = x.request ∧ y.route = x.route

namespace Exchange

variable {x y z : Exchange σ}

theorem Continues.refl (x : Exchange σ) : x.Continues x := ⟨rfl, rfl⟩

theorem Continues.trans (hxy : x.Continues y) (hyz : y.Continues z) : x.Continues z :=
  ⟨hyz.1.trans hxy.1, hyz.2.trans hxy.2⟩

theorem Edited.continues (h : x.Edited y) : x.Continues y := by
  obtain ⟨r, m, -, rfl⟩ := h
  exact .refl x

theorem Answered.continues (h : x.Answered y) : x.Continues y := by
  obtain ⟨response, pending, reply, rfl⟩ := h
  exact .refl x

end Exchange

namespace Chain

theorem edited_entered (position : Nat) (layer : TimingLayer σ) (p : Passage σ) :
    p.exchange.Edited (entered position layer p).exchange :=
  layer.edited_enter (p.note (.layerEntered position))

theorem edited_firstTurn (position : Nat) (middleware : Middleware σ) (p : Passage σ) :
    p.exchange.Edited (firstTurn position middleware p).exchange :=
  (p.note (.layerEntered position)).edited_take (middleware p.sight)

theorem answered_applyReply (p : Passage σ) (reply : Reply σ) :
    p.exchange.Answered (applyReply p reply).1.exchange := by
  match reply with
  | .ready (.ok response) => exact ⟨response, _, _, rfl⟩
  | .ready (.error e) =>
    cases hs : e.status with
    | none =>
      refine ⟨p.exchange.response, p.exchange.pending, p.exchange.reply, ?_⟩
      simp [applyReply, hs]
    | some status =>
      refine ⟨{ p.exchange.response with status }, p.exchange.pending, p.exchange.reply, ?_⟩
      simp [applyReply, hs, Exchange.setStatus]
  | .deferred later => exact ⟨_, some later, _, rfl⟩

theorem answered_endpoint (p : Passage σ) :
    p.exchange.Answered (endpoint p).1.exchange := by
  simp only [endpoint]
  split
  next =>
    simp only [callHandler]
    split
    next => exact ⟨.bare .notFound, _, _, rfl⟩
    next =>
      split
      next reply _ => exact answered_applyReply _ reply
      next => exact ⟨_, _, _, rfl⟩
  next =>
    split
    next => exact ⟨_, _, _, rfl⟩
    next reply _ =>
      obtain ⟨response, pending, reply', h⟩ := answered_applyReply
        { p.note .endReached with exchange := { p.exchange with reply := none } } reply
      exact ⟨response, pending, reply', h⟩

/-- The end of the chain leaves the measurement of the exchange. -/
theorem measurement_endpoint (p : Passage σ) :
    (endpoint p).1.exchange.measurement = p.exchange.measurement := by
  obtain ⟨response, pending, reply, h⟩ := answered_endpoint p
  rw [h]

/-- **A pass changes neither the request nor the route** of its exchange. -/
theorem continues_run (position : Nat) (layers : List (Layer σ)) (p : Passage σ) :
    p.exchange.Continues (run position layers p).1.exchange := by
  refine run_rec (motive := fun _ _ p q _ => p.exchange.Continues q.exchange)
    ?nil ?timing ?stop ?proceed position layers p
  case nil => exact fun _ p => (answered_endpoint p).continues
  case timing =>
    intro position layer _ p q ending ih
    exact (edited_entered position layer p).continues.trans
      (ih.trans (layer.edited_leave _ q ending).continues)
  case stop =>
    intro position middleware _ p ending _
    exact (edited_firstTurn position middleware p).continues
  case proceed =>
    intro position middleware _ p after q ending _ ih
    exact (edited_firstTurn position middleware p).continues.trans
      (ih.trans (q.edited_take _).continues)

/-- **A measurement once attached stays**, and no pass touches the error that was kept. -/
theorem run_keeps (position : Nat) (layers : List (Layer σ)) (p : Passage σ) :
    (∀ m, p.exchange.measurement = some m →
      (run position layers p).1.exchange.measurement = some m) ∧
    (run position layers p).1.exchange.error = p.exchange.error := by
  refine run_rec
    (motive := fun _ _ p q _ =>
      (∀ m, p.exchange.measurement = some m → q.exchange.measurement = some m) ∧
        q.exchange.error = p.exchange.error) ?_ ?_ ?_ ?_ position layers p
  · intro _ p
    obtain ⟨response, pending, reply, h⟩ := answered_endpoint p
    rw [h]
    exact ⟨fun _ hm => hm, rfl⟩
  · intro position layer rest p q ending ⟨hm, he⟩
    have hin := edited_entered position layer p
    have hout := layer.edited_leave (measured position layer p) q ending
    exact ⟨fun m h => hout.measurement (hm m (hin.measurement h)),
      hout.error.trans (he.trans hin.error)⟩
  · intro position middleware rest p ending _
    have hin := edited_firstTurn position middleware p
    exact ⟨fun m h => hin.measurement h, hin.error⟩
  · intro position middleware rest p after q ending _ ⟨hm, he⟩
    have hin := edited_firstTurn position middleware p
    have hout := q.edited_take (after q.sight ending)
    exact ⟨fun m h => hout.measurement (hm m (hin.measurement h)),
      hout.error.trans (he.trans hin.error)⟩

end Chain

/-! ## The passes end -/

theorem Work.deferrals_of_run {w : Work σ} {s t : σ} {reply : Reply σ}
    (h : w.run s = (t, .ok reply)) : reply.deferrals = w.deferrals := by
  induction w generalizing s with
  | touch change rest ih => exact ih h
  | answer | fail | defer =>
    cases h
    rfl
  | crash => cases h

/-- How often the work at hand still defers: that of the handler on the first pass, that of the
reply to be applied on a later one. -/
def Exchange.remaining (x : Exchange σ) : Nat :=
  match x.kind with
  | .request => App.deferrals x
  | .resumed => (x.reply.map Reply.deferrals).getD 0

theorem Exchange.Edited.remaining {x y : Exchange σ} (h : x.Edited y) :
    y.remaining = x.remaining := by
  obtain ⟨r, m, -, rfl⟩ := h
  rfl

/-- The pending work, if there is any, defers less often than `n` times. -/
def Exchange.PendingBelow (x : Exchange σ) (n : Nat) : Prop :=
  ∀ work, x.pending = some work → work.deferrals < n

namespace Chain

theorem pendingBelow_applyReply {p : Passage σ} (reply : Reply σ)
    (hp : p.exchange.pending = none) :
    (applyReply p reply).1.exchange.PendingBelow reply.deferrals := by
  intro work hwork
  match reply with
  | .ready (.ok response) => exact nomatch hp.symm.trans hwork
  | .ready (.error e) =>
    cases hs : e.status <;> simp [applyReply, hs, Exchange.setStatus, hp] at hwork
  | .deferred later =>
    cases hwork
    exact Nat.lt_succ_self _

theorem pendingBelow_callHandler {p : Passage σ} (hp : p.exchange.pending = none) :
    (callHandler p).1.exchange.PendingBelow (App.deferrals p.exchange) := by
  intro work hwork
  simp only [callHandler] at hwork
  split at hwork
  next => exact nomatch hp.symm.trans hwork
  next route hroute =>
    have hd : App.deferrals p.exchange = (route.handler p.exchange.request).deferrals := by
      simp [App.deferrals, hroute]
    split at hwork
    next reply hreply =>
      have hrun := Work.deferrals_of_run (Prod.ext rfl hreply)
      rw [hd, show (route.handler p.exchange.request).deferrals = reply.deferrals from hrun.symm]
      exact pendingBelow_applyReply reply (by exact hp) work hwork
    next => exact nomatch hp.symm.trans hwork

theorem pendingBelow_endpoint {p : Passage σ} (hp : p.exchange.pending = none) :
    (endpoint p).1.exchange.PendingBelow p.exchange.remaining := by
  intro work hwork
  simp only [endpoint] at hwork
  split at hwork
  next hkind =>
    have hk : p.exchange.kind = .request := hkind
    simp only [Exchange.remaining, hk]
    exact pendingBelow_callHandler (p := p.note .endReached) hp work hwork
  next hkind =>
    have hk : p.exchange.kind = .resumed := hkind
    simp only [Exchange.remaining, hk]
    split at hwork
    next => exact nomatch hp.symm.trans hwork
    next reply hreply =>
      have hr : p.exchange.reply = some reply := hreply
      rw [hr]
      exact pendingBelow_applyReply reply (by exact hp) work hwork

/-- A pass that begins with nothing pending leaves work that defers less often than what it
found. -/
theorem pendingBelow_run (position : Nat) (layers : List (Layer σ)) (p : Passage σ)
    (hp : p.exchange.pending = none) :
    (run position layers p).1.exchange.PendingBelow p.exchange.remaining := by
  revert hp
  refine run_rec
    (motive := fun _ _ p q _ => p.exchange.pending = none →
      q.exchange.PendingBelow p.exchange.remaining) ?_ ?_ ?_ ?_ position layers p
  · intro _ p hp
    exact pendingBelow_endpoint hp
  · intro position layer rest p q ending ih hp work hwork
    have he := edited_entered position layer p
    rw [← he.remaining]
    refine ih (he.pending.trans hp) work ?_
    exact ((layer.edited_leave _ q ending).pending.symm.trans hwork)
  · intro position middleware rest p ending _ hp work hwork
    have he := (edited_firstTurn position middleware p).pending
    exact nomatch (he.trans hp).symm.trans hwork
  · intro position middleware rest p after q ending _ ih hp work hwork
    have he := edited_firstTurn position middleware p
    rw [← he.remaining]
    refine ih (he.pending.trans hp) work ?_
    exact (q.edited_take (after q.sight ending)).pending.symm.trans hwork

end Chain

/-- Running work turns to a pass on which less is deferred. -/
theorem Passage.remaining_runWork (p : Passage σ) (work : Work σ) :
    (p.runWork work).exchange.remaining ≤ work.deferrals := by
  simp only [runWork]
  split
  next => exact Nat.zero_le _
  next => exact Nat.zero_le _
  next reply _ hreply =>
    exact Nat.le_of_eq (Work.deferrals_of_run (Prod.ext rfl hreply))

theorem Passage.pending_runWork (p : Passage σ) (work : Work σ) :
    (p.runWork work).exchange.pending = none := by
  simp only [runWork]
  split <;> rfl

namespace App

/-- What a pass does to the work at hand. -/
theorem remaining_lt_of_again {app : App σ} {p p' : Passage σ} (hp : p.exchange.pending = none)
    (h : app.pass p = .again p') :
    p'.exchange.pending = none ∧ p'.exchange.remaining < p.exchange.remaining := by
  obtain ⟨-, work, hwork, rfl⟩ := pass_eq_again_iff.mp h
  -- the pass lowers what remains, and running the work does not raise it
  have hlt : work.deferrals < p.exchange.remaining :=
    Chain.pendingBelow_run 0 app.layers (opened p) hp work hwork
  exact ⟨Passage.pending_runWork _ _,
    Nat.lt_of_le_of_lt (Passage.remaining_runWork _ _) hlt⟩

theorem exists_passes? {app : App σ} {n : Nat} {p : Passage σ}
    (hp : p.exchange.pending = none) (hn : p.exchange.remaining < n) :
    ∃ q crash, app.passes? n p = some (q, crash) := by
  induction n generalizing p with
  | zero => exact absurd hn (Nat.not_lt_zero _)
  | succ n ih =>
    simp only [passes?]
    split
    next q crash _ => exact ⟨q, crash, rfl⟩
    next p' hpass =>
      obtain ⟨hp', hlt⟩ := remaining_lt_of_again hp hpass
      exact ih hp' (by omega)

theorem begin_fresh (app : App σ) (request : Request) :
    ∃ params route, app.begin request = .fresh { request with params } route := by
  simp only [App.begin]
  split
  next route params _ => exact ⟨params, some route, rfl⟩
  next => exact ⟨request.params, none, rfl⟩

theorem begin_of_lookup {app : App σ} {request : Request} {route : Route σ}
    {params : RouteTable.Params}
    (h : app.routes.lookup request.method request.path = some (route, params)) :
    app.begin request = .fresh { request with params } (some route) := by
  simp only [begin, h]

/-- **Every request has a last pass.** -/
theorem exists_run? (app : App σ) (request : Request) (service : Service σ) :
    ∃ q crash, app.run? request service = some (q, crash) := by
  -- the number of passes allowed is one more than what remains at first
  obtain ⟨params, route, hx⟩ := app.begin_fresh request
  refine exists_passes? ?_ ?_ <;> simp only [hx]
  · rfl
  · exact Nat.lt_succ_self _

theorem handle_of_run? {app : App σ} {request : Request} {service : Service σ}
    {q : Passage σ} {crash : Option String} (h : app.run? request service = some (q, crash)) :
    app.handle request service =
      (q.service, crash.elim (.ok q.exchange.response) .error) := by
  cases crash <;> simp [handle, h]

end App

/-! ## A route that defers once

Small applications around it show below what the theorems say of a given run. -/

/-- The middleware that leaves everything to the inner stages. -/
def Middleware.transparent : Middleware σ := fun sight =>
  { state := sight.state
    next := .proceed fun sight ending => { state := sight.state, next := ending } }

namespace Exports

/-- The route `/exports`, whose handler defers the given work. -/
def routes (work : Work Unit) : RouteTable Unit :=
  [{ route :=
       { method := .get, pattern := "/exports", name := "exports", handler := fun _ => .defer work }
     pattern := "/exports".toList.map .literal }]

def request : Request := { uri := { Uri.root with path := "/exports" } }

end Exports

end TimedHttp
