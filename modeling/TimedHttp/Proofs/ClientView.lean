import TimedHttp.Proofs.Reference

/-!
# What a client sees of a timing layer

To the layers outside of it, a timing layer is a middleware that sets the status of every failure to
one that says so, and to nothing else. An outer middleware that raises the failure again, or sets a
status of its own, hides even that, and then the client cannot tell whether the layer is there. An
outer middleware that swallows the failure and leaves the response as it is shows it.

The middlewares of the chain are taken to be blind: what they do does not depend on measurements.

## Main statements

* `Chain.outcome_timing` — a timing layer as seen from outside
* `Chain.Agree` — chains that come to the same from passages that look the same
* `App.handle_of_agree` — applications whose chains agree answer alike
* `App.timing_marks_failures` — a timing layer in any chain, and when it does not show
* `Exports.swallowed_failure_shows` — a chain in which it does
-/

namespace TimedHttp

variable {σ : Type}

/-! ## Blind middlewares -/

namespace Sight

/-- What is seen if one does not look at measurements. -/
def bare (s : Sight σ) : Sight σ :=
  { exchange := s.exchange.unmeasured, state := s.state, measurements := [] }

/-- The same sight, with a status that says that the exchange failed. -/
def failed (s : Sight σ) : Sight σ := { s with exchange := s.exchange.failStatus }

end Sight

theorem Passage.sight_bare (p : Passage σ) : p.bare.sight = p.sight.bare := rfl

/-- **A blind middleware** does not look at measurements, in either turn. -/
def Middleware.Blind (middleware : Middleware σ) : Prop :=
  ∀ sight, middleware sight = middleware sight.bare ∧
    ∀ after, (middleware sight).next = .proceed after →
      ∀ sight' ending, after sight' ending = after sight'.bare ending

def Layer.Blind : Layer σ → Prop
  | timing _ => True
  | custom middleware => middleware.Blind

/-! ## What a pass comes to -/

namespace Chain

/-- What a pass comes to, seen without measurements. -/
def outcome (r : Passage σ × Ending) : Passage σ × Ending := (r.1.bare, r.2)

/-- What a pass comes to if every failure gets a status that says so. -/
def settled (r : Passage σ × Ending) : Passage σ × Ending :=
  match r.2 with
  | .returned (.error _) => (r.1.bare.failed, r.2)
  | _ => (r.1.bare, r.2)

theorem settled_outcome (r : Passage σ × Ending) : settled (outcome r) = settled r := rfl

theorem settled_of_bare {p q : Passage σ} (h : p.bare = q.bare) (ending : Ending) :
    settled (p, ending) = settled (q, ending) := by
  rw [← settled_outcome, ← settled_outcome (q, ending), outcome, outcome, h]

/-- Passes that come to the same but for the status of a failure. -/
theorem settled_cases {r r' : Passage σ × Ending} (h : settled r = settled r') :
    outcome r = outcome r' ∨
      ∃ e, r.2 = .returned (.error e) ∧ r'.2 = .returned (.error e) ∧
        r.1.bare.failed = r'.1.bare.failed := by
  obtain ⟨p, ending⟩ := r
  obtain ⟨q, ending'⟩ := r'
  have hsnd : ∀ p (ending : Ending), (settled (σ := σ) (p, ending)).2 = ending := by
    intro p ending
    match ending with
    | .crashed _ => rfl
    | .returned (.ok ()) => rfl
    | .returned (.error _) => rfl
  obtain rfl : ending = ending' := by rw [← hsnd p ending, h, hsnd]
  match ending with
  | .crashed _ => exact .inl h
  | .returned (.ok ()) => exact .inl h
  | .returned (.error e) => exact .inr ⟨e, rfl, rfl, (Prod.mk.inj h).1⟩

theorem settled_settled (r : Passage σ × Ending) : settled (settled r) = settled r := by
  obtain ⟨p, ending⟩ := r
  match ending with
  | .crashed _ => rfl
  | .returned (.ok ()) => rfl
  | .returned (.error _) =>
    show (p.bare.failed.bare.failed, _) = _
    rw [Passage.bare_failed, Passage.failed_failed]
    rfl

/-- **A timing layer, as seen from outside**, gives every failure a status that says so. -/
theorem outcome_timing (position : Nat) (layer : TimingLayer σ) (rest : List (Layer σ))
    (p : Passage σ) :
    outcome (run position (.timing layer :: rest) p) =
      settled (run (position + 1) rest (entered position layer p)) := by
  rw [run_timing]
  obtain ⟨q, ending⟩ := run (position + 1) rest (entered position layer p)
  have hleave := bare_leave layer (measured position layer p) q ending
  match ending with
  | .crashed _ => exact congrArg (·, _) hleave
  | .returned (.ok ()) => exact congrArg (·, _) hleave
  | .returned (.error _) => exact congrArg (·, _) hleave

end Chain

/-- The middleware that gives every failure a status that says so. -/
def Middleware.marksFailures : Middleware σ := fun sight =>
  { state := sight.state
    next := .proceed fun sight ending =>
      { edits :=
          match ending with
          | .returned (.error _) => [.setStatus sight.exchange.status.orServerError]
          | _ => []
        state := sight.state
        next := ending } }

namespace Chain

theorem bare_firstTurn (position : Nat) (middleware : Middleware σ) (p : Passage σ) :
    (firstTurn position middleware p).bare = (p.bare.take (middleware p.sight)).bare :=
  (p.note (.layerEntered position)).bare_take (middleware p.sight)

theorem outcome_marksFailures (position : Nat) (rest : List (Layer σ)) (p : Passage σ) :
    outcome (run position (.custom .marksFailures :: rest) p) =
      settled (run (position + 1) rest (firstTurn position .marksFailures p)) := by
  obtain ⟨after, hnext⟩ : ∃ after, (Middleware.marksFailures p.sight).next = .proceed after :=
    ⟨_, rfl⟩
  rw [run_proceed hnext]
  cases hnext
  obtain ⟨q, ending⟩ := run (position + 1) rest (firstTurn position .marksFailures p)
  match ending with
  | .crashed _ => rfl
  | .returned (.ok ()) => rfl
  | .returned (.error _) => rfl

/-! ## Chains that agree -/

/-- **Chains agree** in what their passes come to, from passages that look the same without
measurements. -/
def Agree (view : Passage σ × Ending → Passage σ × Ending)
    (layers layers' : List (Layer σ)) : Prop :=
  ∀ i j p q, p.bare = q.bare → view (run i layers p) = view (run j layers' q)

namespace Agree

variable {layers layers' : List (Layer σ)}

theorem weaken (h : Agree outcome layers layers') : Agree settled layers layers' := by
  intro i j p q hpq
  rw [← settled_outcome, h i j p q hpq, settled_outcome]

theorem nil : Agree outcome ([] : List (Layer σ)) [] := by
  intro i j p q hpq
  obtain ⟨hbare, hending⟩ := bare_endpoint p
  obtain ⟨hbare', hending'⟩ := bare_endpoint q
  refine Prod.ext ?_ ?_
  · exact hbare.trans (hpq ▸ hbare'.symm)
  · exact hending.trans (hpq ▸ hending'.symm)

theorem timing (h : Agree settled layers layers') (layer layer' : TimingLayer σ) :
    Agree outcome (.timing layer :: layers) (.timing layer' :: layers') := by
  intro i j p q hpq
  rw [outcome_timing, outcome_timing]
  refine h _ _ _ _ ?_
  rw [bare_entered, bare_entered, hpq]

theorem timing_left (h : Agree settled layers layers') (layer : TimingLayer σ) :
    Agree settled (.timing layer :: layers) layers' := by
  intro i j p q hpq
  rw [← settled_outcome, outcome_timing, settled_settled]
  refine h _ _ _ _ ?_
  rw [bare_entered, hpq]

theorem timing_marksFailures (h : Agree settled layers layers') (layer : TimingLayer σ) :
    Agree outcome (.timing layer :: layers) (.custom .marksFailures :: layers') := by
  intro i j p q hpq
  rw [outcome_timing, outcome_marksFailures]
  refine h _ _ _ _ ?_
  rw [bare_entered, hpq]
  rfl

end Agree

/-- The second turn of a middleware, after its inner stages. -/
def secondTurn (position : Nat) (after : Sight σ → Ending → Turn σ Ending)
    (r : Passage σ × Ending) : Passage σ × Ending :=
  let turn := after r.1.sight r.2
  ((r.1.take turn).note (.layerLeft position turn.next), turn.next)

/-- A blind middleware keeps an agreement that its second turn keeps. -/
theorem Agree.custom_of {view : Passage σ × Ending → Passage σ × Ending}
    {layers layers' : List (Layer σ)} (h : Agree view layers layers') {middleware : Middleware σ}
    (hblind : middleware.Blind)
    (hview : ∀ p q ending, p.bare = q.bare → view (p, ending) = view (q, ending))
    (hsecond : ∀ sight after, (middleware sight).next = .proceed after →
      ∀ i j r r', view r = view r' → view (secondTurn i after r) = view (secondTurn j after r')) :
    Agree view (.custom middleware :: layers) (.custom middleware :: layers') := by
  intro i j p q hpq
  have hturn : middleware p.sight = middleware q.sight := by
    rw [(hblind p.sight).1, (hblind q.sight).1, ← Passage.sight_bare, ← Passage.sight_bare, hpq]
  have hfirst : (firstTurn i middleware p).bare = (firstTurn j middleware q).bare := by
    rw [bare_firstTurn, bare_firstTurn, hpq, hturn]
  cases hnext : (middleware p.sight).next with
  | stop ending =>
    rw [run_stop hnext, run_stop (hturn ▸ hnext)]
    exact hview _ _ ending hfirst
  | proceed after =>
    rw [run_proceed hnext, run_proceed (hturn ▸ hnext)]
    exact hsecond _ after hnext i j _ _ (h _ _ _ _ hfirst)

theorem outcome_secondTurn {after : Sight σ → Ending → Turn σ Ending}
    (hblind : ∀ sight ending, after sight ending = after sight.bare ending)
    {r r' : Passage σ × Ending} (h : outcome r = outcome r') (i j : Nat) :
    outcome (secondTurn i after r) = outcome (secondTurn j after r') := by
  obtain ⟨hbare, hending⟩ : r.1.bare = r'.1.bare ∧ r.2 = r'.2 := Prod.mk.inj h
  have hturn : after r.1.sight r.2 = after r'.1.sight r'.2 := by
    rw [hblind, hblind r'.1.sight, ← Passage.sight_bare, ← Passage.sight_bare, hbare, hending]
  refine Prod.ext ?_ (congrArg Turn.next hturn)
  show (r.1.take _).bare = (r'.1.take _).bare
  rw [Passage.bare_take, Passage.bare_take r'.1, hbare, hturn]

theorem Agree.custom {layers layers' : List (Layer σ)} (h : Agree outcome layers layers')
    {middleware : Middleware σ} (hblind : middleware.Blind) :
    Agree outcome (.custom middleware :: layers) (.custom middleware :: layers') :=
  h.custom_of hblind (fun _ _ _ hpq => congrArg (·, _) hpq) fun sight after hnext i j _ _ hr =>
    outcome_secondTurn ((hblind sight).2 after hnext) hr i j

end Chain

/-! ## Middlewares that settle failures -/

/-- The edit sets a status. -/
def Edit.SetsStatus : Edit → Prop
  | setStatus _ | setResponse _ => True
  | attach _ => False

/-- The turn raises an error, or sets a status. -/
def Turn.SettlesStatus (turn : Turn σ Ending) : Prop :=
  (∃ e, turn.next = .returned (.error e)) ∨ ∃ edit ∈ turn.edits, edit.SetsStatus

/-- **A middleware settles failures**: over an error of its inner stages, it does as much with a
status other than 4xx and 5xx as with 500, and raises an error again or sets a status of its own. -/
def Middleware.SettlesFailures (middleware : Middleware σ) : Prop :=
  ∀ sight after, (middleware sight).next = .proceed after → ∀ sight' e,
    after sight' (.returned (.error e)) = after sight'.failed (.returned (.error e)) ∧
      (after sight' (.returned (.error e))).SettlesStatus

namespace Edit

theorem attach_failStatus (x : Exchange σ) (m : Nat) :
    x.failStatus.attach m = (x.attach m).failStatus := by
  simp only [Exchange.attach, Exchange.failStatus, Exchange.setStatus]
  split <;> rfl

theorem failStatus_apply (x : Exchange σ) (e : Edit) :
    (e.apply x.failStatus).failStatus = (e.apply x).failStatus := by
  cases e with
  | setStatus | setResponse => rfl
  | attach m => rw [apply, attach_failStatus, Exchange.failStatus_failStatus]; rfl

theorem failStatus_foldl (edits : List Edit) (x : Exchange σ) :
    (edits.foldl Edit.apply x.failStatus).failStatus =
      (edits.foldl Edit.apply x).failStatus := by
  induction edits generalizing x with
  | nil => exact x.failStatus_failStatus
  | cons e edits ih =>
    rw [List.foldl_cons, List.foldl_cons, ← ih, failStatus_apply, ih]

/-- Once a status has been set, it does not matter what it was. -/
theorem foldl_failStatus {edits : List Edit} (h : ∃ e ∈ edits, e.SetsStatus) (x : Exchange σ) :
    edits.foldl Edit.apply x.failStatus = edits.foldl Edit.apply x := by
  induction edits generalizing x with
  | nil => simp at h
  | cons e edits ih =>
    cases e with
    | setStatus | setResponse => rfl
    | attach m =>
      obtain ⟨e, he, hsets⟩ := h
      rcases List.mem_cons.mp he with rfl | he
      · exact hsets.elim
      · rw [List.foldl_cons, apply, attach_failStatus]
        exact ih ⟨e, he, hsets⟩ (x.attach m)

end Edit

namespace Chain

theorem failed_take {α : Type} (p : Passage σ) (turn : Turn σ α) :
    (p.failed.take turn).failed = (p.take turn).failed := by
  simp only [Passage.failed, Passage.take, Edit.failStatus_foldl]

theorem take_failed {turn : Turn σ Ending} (h : ∃ edit ∈ turn.edits, edit.SetsStatus)
    (p : Passage σ) : p.failed.take turn = p.take turn := by
  simp only [Passage.failed, Passage.take, Edit.foldl_failStatus h]

theorem settled_secondTurn {after : Sight σ → Ending → Turn σ Ending}
    (hblind : ∀ sight ending, after sight ending = after sight.bare ending)
    (hsettles : ∀ sight e,
      after sight (.returned (.error e)) = after sight.failed (.returned (.error e)) ∧
        (after sight (.returned (.error e))).SettlesStatus)
    {r r' : Passage σ × Ending} (h : settled r = settled r') (i j : Nat) :
    settled (secondTurn i after r) = settled (secondTurn j after r') := by
  rcases settled_cases h with hsame | ⟨e, he, he', hfailed⟩
  · rw [← settled_outcome, outcome_secondTurn hblind hsame i j, settled_outcome]
  obtain ⟨p, ending⟩ := r
  obtain ⟨q, ending'⟩ := r'
  obtain rfl : ending = .returned (.error e) := he
  obtain rfl : ending' = .returned (.error e) := he'
  -- the turn is the same, as it depends on nothing in which the passages differ
  obtain ⟨turn, hp, hq⟩ : ∃ turn, after p.sight (.returned (.error e)) = turn ∧
      after q.sight (.returned (.error e)) = turn := by
    refine ⟨_, rfl, ?_⟩
    rw [hblind, (hsettles q.sight.bare e).1, hblind p.sight, (hsettles p.sight.bare e).1]
    exact congrArg (fun r => after r.sight (.returned (.error e))) hfailed.symm
  have hsettled : turn.SettlesStatus := hp ▸ (hsettles p.sight e).2
  show settled ((p.take (after p.sight _)).note _, (after p.sight _).next) =
    settled ((q.take (after q.sight _)).note _, (after q.sight _).next)
  rw [hp, hq]
  rcases hsettled with ⟨e', hnext⟩ | hsets
  · rw [hnext]
    show ((p.take turn).bare.failed, _) = ((q.take turn).bare.failed, _)
    rw [Passage.bare_take, Passage.bare_take q, ← Passage.bare_failed, ← Passage.bare_failed,
      ← failed_take, ← failed_take q.bare, hfailed]
  · refine settled_of_bare ?_ turn.next
    show (p.take turn).bare = (q.take turn).bare
    rw [Passage.bare_take, Passage.bare_take q, ← take_failed hsets, ← take_failed hsets q.bare,
      hfailed]

namespace Agree

variable {layers layers' : List (Layer σ)}

theorem custom_settled (h : Agree settled layers layers') {middleware : Middleware σ}
    (hblind : middleware.Blind) (hsettles : middleware.SettlesFailures) :
    Agree settled (.custom middleware :: layers) (.custom middleware :: layers') :=
  h.custom_of hblind (fun _ _ ending hpq => settled_of_bare hpq ending)
    fun sight after hnext i j _ _ hr =>
      settled_secondTurn ((hblind sight).2 after hnext) (hsettles sight after hnext) hr i j

/-- An agreement is kept by blind layers around it. -/
theorem append (h : Agree outcome layers layers') {outer : List (Layer σ)}
    (hblind : ∀ layer ∈ outer, layer.Blind) :
    Agree outcome (outer ++ layers) (outer ++ layers') := by
  induction outer with
  | nil => exact h
  | cons layer outer ih =>
    obtain ⟨hlayer, houter⟩ := List.forall_mem_cons.mp hblind
    cases layer with
    | timing layer => exact (ih houter).weaken.timing layer layer
    | custom middleware => exact (ih houter).custom hlayer

/-- Blind layers agree with themselves. -/
theorem refl (h : ∀ layer ∈ layers, layer.Blind) : Agree outcome layers layers := by
  have happend := Agree.nil.append h
  rwa [List.append_nil] at happend

end Agree

/-- **Layers shield failures**, from the inside out: all middlewares settle them, up to the next
timing layer if there is one. -/
def Shields : List (Layer σ) → Prop
  | [] => True
  | .timing _ :: _ => True
  | .custom middleware :: rest => middleware.SettlesFailures ∧ Shields rest

theorem Agree.shielded {layers layers' : List (Layer σ)} (h : Agree settled layers layers')
    {outward : List (Layer σ)} (hblind : ∀ layer ∈ outward, layer.Blind)
    (hshields : Shields outward) :
    Agree settled (outward.reverse ++ layers) (outward.reverse ++ layers') := by
  induction outward generalizing layers layers' with
  | nil => exact h
  | cons layer outward ih =>
    obtain ⟨hlayer, houtward⟩ := List.forall_mem_cons.mp hblind
    rw [List.reverse_cons, List.append_assoc, List.append_assoc]
    cases layer with
    | timing layer =>
      -- from here on out the chains agree in everything
      exact ((h.timing layer layer).append fun l hl => houtward l (List.mem_reverse.mp hl)).weaken
    | custom middleware => exact ih (h.custom_settled hlayer hshields.1) houtward hshields.2

end Chain

/-! ## Applications whose chains agree -/

theorem Passage.bare_answerError_congr {p q : Passage σ} (h : p.bare.failed = q.bare.failed)
    (e : ChainError) : (p.answerError e).bare = (q.answerError e).bare := by
  rw [bare_answerError, bare_answerError, h]

namespace App

variable {app app' : App σ} {request : Request} {service : Service σ} {p q : Passage σ}

/-- **One pass** of two applications whose chains agree, from passages that look the same. -/
theorem pass_of_agree (h : Chain.Agree Chain.settled app.layers app'.layers)
    (hpq : p.bare = q.bare) :
    (∃ p' q', app.pass p = .again p' ∧ app'.pass q = .again q' ∧ p'.bare = q'.bare) ∨
      ∃ p' q' crash, app.pass p = .final p' crash ∧ app'.pass q = .final q' crash ∧
        p'.bare = q'.bare := by
  have hended : Chain.settled (app.ended p) = Chain.settled (app'.ended q) :=
    h 0 0 (opened p) (opened q) hpq
  rcases Chain.settled_cases hended with hsame | ⟨e, he, he', hfailed⟩
  · obtain ⟨hbare, hending⟩ : (app.ended p).1.bare = (app'.ended q).1.bare ∧
        (app.ended p).2 = (app'.ended q).2 := Prod.mk.inj hsame
    match he : (app.ended p).2 with
    | .crashed message =>
      have he' := hending.symm.trans he
      exact .inr ⟨_, _, _, pass_eq_final_iff.mpr (.inl ⟨message, he, rfl, rfl⟩),
        pass_eq_final_iff.mpr (.inl ⟨message, he', rfl, rfl⟩), hbare⟩
    | .returned (.error e) =>
      have he' := hending.symm.trans he
      exact .inr ⟨_, _, _, pass_eq_final_iff.mpr (.inr (.inl ⟨e, he, rfl, rfl⟩)),
        pass_eq_final_iff.mpr (.inr (.inl ⟨e, he', rfl, rfl⟩)),
        Passage.bare_answerError_congr (congrArg Passage.failed hbare) e⟩
    | .returned (.ok ()) =>
      have he' := hending.symm.trans he
      have hpending : (app.ended p).1.exchange.pending = (app'.ended q).1.exchange.pending :=
        (congrArg (fun r => r.exchange.pending) hbare :)
      cases hw : (app.ended p).1.exchange.pending with
      | none =>
        exact .inr ⟨_, _, _, pass_eq_final_iff.mpr (.inr (.inr ⟨he, hw, rfl, rfl⟩)),
          pass_eq_final_iff.mpr (.inr (.inr ⟨he', hpending.symm.trans hw, rfl, rfl⟩)), hbare⟩
      | some work =>
        refine .inl ⟨_, _, pass_eq_again_iff.mpr ⟨he, work, hw, rfl⟩,
          pass_eq_again_iff.mpr ⟨he', work, hpending.symm.trans hw, rfl⟩, ?_⟩
        rw [Passage.bare_runWork, hbare, ← Passage.bare_runWork]
  · exact .inr ⟨_, _, _, pass_eq_final_iff.mpr (.inr (.inl ⟨e, he, rfl, rfl⟩)),
      pass_eq_final_iff.mpr (.inr (.inl ⟨e, he', rfl, rfl⟩)),
      Passage.bare_answerError_congr hfailed e⟩

/-- All passes, one beside the other. -/
theorem passes?_of_agree (h : Chain.Agree Chain.settled app.layers app'.layers) {n : Nat}
    (hpq : p.bare = q.bare) {p' : Passage σ} {crash : Option String}
    (hp : app.passes? n p = some (p', crash)) :
    ∃ q', app'.passes? n q = some (q', crash) ∧ p'.bare = q'.bare := by
  induction n generalizing p q with
  | zero => cases hp
  | succ n ih =>
    simp only [passes?] at hp ⊢
    rcases pass_of_agree h hpq with
      ⟨p₁, q₁, hpass, hpass', hbare⟩ | ⟨p₁, q₁, c, hpass, hpass', hbare⟩
    · rw [hpass] at hp
      rw [hpass']
      exact ih hbare hp
    · rw [hpass] at hp
      rw [hpass']
      cases hp
      exact ⟨q₁, rfl, hbare⟩

/-- **Applications whose chains agree answer alike**, and leave the same state. -/
theorem handle_of_agree (h : Chain.Agree Chain.settled app.layers app'.layers)
    (hroutes : app.routes = app'.routes) (request : Request) (service : Service σ) :
    (app.handle request service).2 = (app'.handle request service).2 ∧
      (app.handle request service).1.state = (app'.handle request service).1.state := by
  obtain ⟨p, crash, hrun⟩ := app.exists_run? request service
  have hbegin : app.begin request = app'.begin request := by simp only [App.begin, hroutes]
  obtain ⟨q, hrun', hbare⟩ :
      ∃ q, app'.run? request service = some (q, crash) ∧ p.bare = q.bare := by
    obtain ⟨q, hq, hbare⟩ := passes?_of_agree h (q := app'.start request service)
      (by rw [start, hbegin]) hrun
    rw [hbegin] at hq
    exact ⟨q, hq, hbare⟩
  have hresponse : p.exchange.response = q.exchange.response :=
    (congrArg (fun r => r.exchange.response) hbare :)
  rw [handle_of_run? hrun, handle_of_run? hrun', hresponse]
  exact ⟨rfl, (Passage.bare_eq_iff.mp hbare).1⟩

/-- **A timing layer marks failures**, and does nothing else that a client could see. In any chain
of blind middlewares, at any place, requests are answered as they are with the middleware that gives
every failure a status that says so. If the layers outside of it shield failures, they are answered
as they are without it. -/
theorem timing_marks_failures (routes : RouteTable σ) (outer inner : List (Layer σ))
    (layer : TimingLayer σ) (request : Request) (service : Service σ)
    (hblind : ∀ layer ∈ outer ++ inner, layer.Blind) :
    let timed : App σ := { routes, layers := outer ++ .timing layer :: inner }
    let marked : App σ := { routes, layers := outer ++ .custom .marksFailures :: inner }
    let plain : App σ := { routes, layers := outer ++ inner }
    ((timed.handle request service).2 = (marked.handle request service).2 ∧
      (timed.handle request service).1.state = (marked.handle request service).1.state) ∧
    (Chain.Shields outer.reverse →
      (timed.handle request service).2 = (plain.handle request service).2 ∧
        (timed.handle request service).1.state = (plain.handle request service).1.state) := by
  intro timed marked plain
  obtain ⟨houter, hinner⟩ := List.forall_mem_append.mp hblind
  have hsettled := (Chain.Agree.refl hinner).weaken
  refine ⟨?_, fun hshields => ?_⟩
  · have hmarked := (hsettled.timing_marksFailures layer).append houter
    have hagree : Chain.Agree Chain.settled timed.layers marked.layers := hmarked.weaken
    exact handle_of_agree hagree rfl request service
  · have hplain := (hsettled.timing_left layer).shielded
      (fun l hl => houter l (List.mem_reverse.mp hl)) hshields
    rw [List.reverse_reverse] at hplain
    have hagree : Chain.Agree Chain.settled timed.layers plain.layers := hplain
    exact handle_of_agree hagree rfl request service

end App

/-! ## A failure that is swallowed -/

/-- The middleware that swallows errors and leaves the response as it is. -/
def Middleware.swallowing : Middleware σ := fun sight =>
  { state := sight.state
    next := .proceed fun sight ending =>
      { state := sight.state
        next :=
          match ending with
          | .returned (.error _) => .returned (.ok ())
          | _ => ending } }

theorem Middleware.blind_swallowing : (swallowing : Middleware σ).Blind := by
  intro sight
  refine ⟨rfl, fun after hnext sight' ending => ?_⟩
  cases hnext
  rfl

theorem Middleware.blind_wrapping : (wrapping : Middleware σ).Blind := by
  intro sight
  refine ⟨rfl, fun after hnext sight' ending => ?_⟩
  cases hnext
  rfl

theorem Middleware.settlesFailures_wrapping : (wrapping : Middleware σ).SettlesFailures := by
  intro sight after hnext sight' e
  cases hnext
  exact ⟨rfl, .inl ⟨_, rfl⟩⟩

namespace Exports

/-- The route `/exports`, whose handler raises an error. -/
def broken : RouteTable Unit :=
  [{ route :=
       { method := .get, pattern := "/exports", name := "exports"
         handler := fun _ => .fail { className := "Boom", message := "x" } }
     pattern := "/exports".toList.map .literal }]

/-- With a timing layer inside, a middleware that swallows the error of the handler answers with
500; without it, with 200. -/
theorem swallowed_failure_shows :
    ¬ ∀ (routes : RouteTable Unit) (outer inner : List (Layer Unit)) (layer : TimingLayer Unit)
        (request : Request) (service : Service Unit), (∀ layer ∈ outer ++ inner, layer.Blind) →
      (App.handle { routes, layers := outer ++ .timing layer :: inner } request service).2 =
        (App.handle { routes, layers := outer ++ inner } request service).2 := by
  intro h
  have hblind : ∀ layer ∈ ([.custom .swallowing] ++ [] : List (Layer Unit)), layer.Blind := by
    simp only [List.append_nil, List.forall_mem_singleton]
    exact Middleware.blind_swallowing
  have hsame := h broken [.custom .swallowing] [] { registry := 0 } request { state := () } hblind
  have htimed : (App.handle
      { routes := broken, layers := [.custom .swallowing, .timing { registry := 0 }] }
      request { state := () }).2 = .ok (.bare .internalServerError) := rfl
  have hplain : (App.handle { routes := broken, layers := [.custom .swallowing] }
      request { state := () }).2 = .ok (.bare .ok) := rfl
  have hstatus : (.ok (.bare .internalServerError) : Except String Response) = .ok (.bare .ok) :=
    htimed.symm.trans (hsame.trans hplain)
  exact absurd hstatus (by simp [Response.bare, Status.internalServerError, Status.ok])

/-- A middleware that swallows errors, outside of a timing layer, outside of one that wraps them. -/
def sheltered : List (Layer Unit) :=
  [.custom .swallowing, .timing { registry := 1 }, .custom .wrapping]

/-- The timing layer shields the failure, though it is swallowed further out: with or without
another one inside, the response is a bare 500. -/
theorem shielded_failure_hidden :
    (∀ layer ∈ sheltered, layer.Blind) ∧ Chain.Shields sheltered.reverse ∧
      (App.handle { routes := broken, layers := sheltered ++ [.timing untagged] }
        request crashing).2 = .ok (.bare .internalServerError) ∧
      (App.handle { routes := broken, layers := sheltered } request crashing).2 =
        .ok (.bare .internalServerError) := by
  have hblind : ∀ layer ∈ sheltered, layer.Blind := by
    simp only [sheltered, List.forall_mem_cons]
    exact ⟨Middleware.blind_swallowing, trivial, Middleware.blind_wrapping, List.forall_mem_nil _⟩
  have hshields : Chain.Shields sheltered.reverse := ⟨Middleware.settlesFailures_wrapping, trivial⟩
  have hplain : (App.handle { routes := broken, layers := sheltered } request crashing).2 =
      .ok (.bare .internalServerError) := rfl
  obtain ⟨-, hsame⟩ := App.timing_marks_failures broken sheltered [] untagged request crashing
    ((List.append_nil sheltered).symm ▸ hblind)
  have htimed := (hsame hshields).1
  rw [List.append_nil] at htimed
  exact ⟨hblind, hshields, htimed.trans hplain, hplain⟩

end Exports

end TimedHttp
