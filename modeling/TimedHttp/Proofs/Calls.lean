import TimedHttp.Proofs.Quiet
import TimedHttp.Proofs.Samples

/-!
# The journal tells the calls

What is said elsewhere about samples is said of the journal. Here is the bridge to the registries
themselves: over the whole way of a request, a registry that notes its calls was called exactly as
the journal tells, in the same order.

## Main statements

* `Service.CalledAsTold` — the relation between two services
* `Chain.calledAsTold_run`, `App.calledAsTold_handle` — over a pass, and over a request
-/

namespace TimedHttp

variable {σ : Type}

/-- **Called as told**: the registries of the second service were called as its journal tells beyond
that of the first. -/
def Service.CalledAsTold (s t : Service σ) : Prop :=
  ∃ entries, t.journal = s.journal ++ entries ∧ Told s.registries t.registries entries

/-- The entry tells of no call. -/
def Entry.TellsNothing (e : Entry) : Prop := ∀ i, e.callTo i = none

theorem Told.around {before after : List Registry} {xs entries ys : List Entry}
    (h : Told before after entries) (hxs : ∀ e ∈ xs, e.TellsNothing)
    (hys : ∀ e ∈ ys, e.TellsNothing) : Told before after (xs ++ entries ++ ys) :=
  ((Told.refl before hxs).trans h).trans (Told.refl after hys)

namespace Service.CalledAsTold

variable {s t u : Service σ}

theorem refl (s : Service σ) : s.CalledAsTold s :=
  ⟨[], (List.append_nil _).symm, .refl _ (List.forall_mem_nil _)⟩

theorem trans (hst : s.CalledAsTold t) (htu : t.CalledAsTold u) : s.CalledAsTold u := by
  obtain ⟨entries, hjournal, htold⟩ := hst
  obtain ⟨entries', hjournal', htold'⟩ := htu
  refine ⟨entries ++ entries', ?_, htold.trans htold'⟩
  rw [hjournal', hjournal, List.append_assoc]

theorem of_quiet (h : s.Quiet Entry.TellsNothing t) : s.CalledAsTold t := by
  obtain ⟨state, early, entries, -, hentries, rfl⟩ := h
  exact ⟨entries, rfl, .refl _ hentries⟩

theorem note (s : Service σ) {e : Entry} (h : e.TellsNothing) : s.CalledAsTold (s.note e) :=
  of_quiet (.note s h)

end Service.CalledAsTold

theorem Entry.tellsNothing_logged (event : Event) : (Entry.logged event).TellsNothing :=
  fun _ => rfl

theorem TimingLayer.calledAsTold_close (layer : TimingLayer σ) (m : Nat) (x : Exchange σ)
    (failure : Option Failure) (s : Service σ) : s.CalledAsTold (layer.close m x failure s) := by
  cases hs : s.running? m with
  | none =>
    rw [close_of_stopped hs]
    exact .note s (Entry.tellsNothing_logged _)
  | some running =>
    obtain ⟨registries, warnings, elapsed, recordings, stopped, -, -, htold, hclose⟩ :=
      layer.close_eq x failure (hs.trans rfl : s.running? m = some (running.1, running.2))
    have hbefore : ∀ e ∈ Entry.tagsResolved (Outcome.classify x.status failure)
          (layer.tags x x.route (Outcome.classify x.status failure)) ::
        (warnings.map .logged ++ [.sampleStopped running.1.registry]), e.TellsNothing := by
      intro e he
      simp only [List.mem_cons, List.mem_append, List.mem_map, List.not_mem_nil, or_false] at he
      rcases he with rfl | ⟨event, -, rfl⟩ | rfl <;> exact fun _ => rfl
    have hafter : ∀ e ∈ [Entry.logged (closing (Outcome.classify x.status failure) stopped)],
        e.TellsNothing := by
      simp [Entry.TellsNothing, Entry.callTo]
    rw [hclose]
    refine ⟨_, ?_, htold.around hbefore hafter⟩
    simp

theorem Service.calledAsTold_abandon (s : Service σ) (m : Nat) : s.CalledAsTold (s.abandon m) := by
  cases hs : s.running? m with
  | none =>
    rw [abandon_of_stopped hs]
    exact .refl s
  | some running =>
    rw [abandon_eq (hs.trans rfl : s.running? m = some (running.1, running.2))]
    refine ⟨_, rfl, .refl _ ?_⟩
    simp [Entry.callTo]

namespace Chain

theorem calledAsTold_entered (position : Nat) (layer : TimingLayer σ) (p : Passage σ) :
    p.service.CalledAsTold (entered position layer p).service := by
  cases hm : p.exchange.measurement with
  | some m =>
    rw [entered_of_some _ _ hm]
    refine ⟨_, rfl, .refl _ ?_⟩
    simp [Entry.callTo]
  | none =>
    obtain ⟨registries, events, -, htold, heq⟩ := entered_of_none position layer hm
    have hbefore : ∀ e ∈ [Entry.layerEntered position], e.TellsNothing := by
      simp [Entry.TellsNothing, Entry.callTo]
    have hafter : ∀ e ∈ events.map Entry.logged ++
        [.measuring position p.service.measurements.length], e.TellsNothing := by
      intro e he
      simp only [List.mem_cons, List.mem_append, List.mem_map, List.not_mem_nil, or_false] at he
      rcases he with ⟨event, -, rfl⟩ | rfl <;> exact fun _ => rfl
    rw [heq]
    exact ⟨_, rfl, htold.around hbefore hafter⟩

theorem calledAsTold_leave (layer : TimingLayer σ) (m : Nat) (p : Passage σ) (ending : Ending) :
    p.service.CalledAsTold (layer.leave m p ending).service := by
  match ending with
  | .crashed message => exact .refl _
  | .returned (.error e) => exact layer.calledAsTold_close m _ _ _
  | .returned (.ok ()) =>
    by_cases hpending : p.exchange.pending = none
    · rw [TimingLayer.leave_of_finished hpending]
      exact layer.calledAsTold_close m _ _ _
    · rw [TimingLayer.leave_of_deferred hpending]
      exact .note _ (Entry.tellsNothing_logged _)

/-- **Over a pass**, the registries are called as the journal tells. -/
theorem calledAsTold_run (position : Nat) (layers : List (Layer σ)) (p : Passage σ) :
    p.service.CalledAsTold (run position layers p).1.service := by
  refine run_rec (motive := fun _ _ p q _ => p.service.CalledAsTold q.service)
    ?nil ?timing ?stop ?proceed position layers p
  case nil =>
    intro _ p
    refine .of_quiet ((quiet_endpoint p).mono ?_)
    rintro e (rfl | rfl) i <;> rfl
  case timing =>
    intro position layer _ p q ending hinner
    refine (calledAsTold_entered position layer p).trans (hinner.trans ?_)
    exact (calledAsTold_leave layer _ q ending).trans (.note _ fun _ => rfl)
  case stop =>
    intro position middleware _ p ending _
    exact .of_quiet ((quiet_firstTurn position middleware p fun _ => rfl).trans
      (.note _ fun _ => rfl))
  case proceed =>
    intro position middleware _ p after q ending _ hinner
    refine (Service.CalledAsTold.of_quiet
      (quiet_firstTurn position middleware p fun _ => rfl)).trans (hinner.trans ?_)
    exact .of_quiet ((Passage.quiet_take q _).trans (.note _ fun _ => rfl))

end Chain

theorem Passage.calledAsTold_runWork (p : Passage σ) (work : Work σ) :
    p.service.CalledAsTold (p.runWork work).service := by
  rcases p.runWork_cases work with ⟨reply, -, -, heq⟩ | ⟨e, status, -, heq⟩
  · rw [heq]
    refine ⟨_, rfl, .refl _ ?_⟩
    simp [Entry.callTo]
  · rw [heq]
    refine ⟨_, rfl, .refl _ ?_⟩
    simp [Entry.callTo]

theorem Passage.calledAsTold_answerError (p : Passage σ) (e : ChainError) :
    p.service.CalledAsTold (p.answerError e).service := by
  obtain ⟨dropped, -, heq⟩ := p.answerError_eq e
  have htold : p.service.CalledAsTold { p.service with
      journal := p.service.journal ++
        .logged (.requestFailed e p.exchange.status.orServerError) :: dropped.map .logged } := by
    refine ⟨_, rfl, .refl _ ?_⟩
    simp [Entry.callTo]
  rw [heq]
  cases p.exchange.measurement with
  | none => exact htold
  | some m => exact htold.trans (Service.calledAsTold_abandon _ m)

namespace App

theorem calledAsTold_ended (app : App σ) (p : Passage σ) :
    p.service.CalledAsTold (app.ended p).1.service := by
  have hopened : p.service.CalledAsTold (opened p).service := .note p.service fun _ => rfl
  exact (hopened.trans (Chain.calledAsTold_run 0 app.layers (opened p))).trans
    (.note _ fun _ => rfl)

/-- **Over the whole way of a request**, the registries are called as the journal tells. -/
theorem calledAsTold_handle (app : App σ) (request : Request) (service : Service σ) :
    service.CalledAsTold (app.handle request service).1 := by
  obtain ⟨q, crash, hrun⟩ := app.exists_run? request service
  obtain ⟨last, hlast, hpass⟩ := run?_rec (I := fun p => service.CalledAsTold p.service)
    (.refl service)
    (fun p p' hp hpass => by
      obtain ⟨-, work, -, rfl⟩ := pass_eq_again_iff.mp hpass
      exact hp.trans ((calledAsTold_ended app p).trans (Passage.calledAsTold_runWork _ work))) hrun
  have hended := hlast.trans (calledAsTold_ended app last)
  rw [handle_of_run? hrun]
  rcases pass_eq_final_iff.mp hpass with ⟨message, -, rfl, -⟩ | ⟨e, -, rfl, -⟩ | ⟨-, -, rfl, -⟩
  · exact hended
  · exact hended.trans (Passage.calledAsTold_answerError _ e)
  · exact hended

end App

end TimedHttp
