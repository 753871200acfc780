import TimedHttp.Proofs.Quiet
import TimedHttp.Proofs.Samples

/-!
# When a sample is left running

A pass that leaves work deferred leaves the sample running, for a later pass to stop. Whether one
does depends on the middlewares outside the timing layers: if they go on, a timing layer stops the
sample; if they raise an error, it is dropped; but if one answers the last pass by itself, nothing
stops it. What is shown here is exactly when that happens, for any middlewares at all.

## Main statements

* `Tracked` — the invariant: whether the measurement of the exchange runs, told from the journal
* `Chain.tracked_run` — a pass keeps it
* `App.sample_runs_iff` — whether the sample runs after the response
* `Exports.sample_left_running` — a request that is answered and leaves its sample running
-/

namespace TimedHttp

variable {σ : Type}

/-! ## What the journal tells about stopping -/

/-- A sample was started. -/
def Started (entries : List Entry) : Prop := ∃ registry a, .sampleStarted registry a ∈ entries

/-- The inner stages of a timing layer returned. -/
def Returned (timed : Nat → Bool) (entries : List Entry) : Prop :=
  ∃ i result, timed i ∧ .layerLeft i (.returned result) ∈ entries

/-- The inner stages of a timing layer returned an error. -/
def Failed (timed : Nat → Bool) (entries : List Entry) : Prop :=
  ∃ i e, timed i ∧ .layerLeft i (.returned (.error e)) ∈ entries

/-- The entry is none of those, and stands between the beginning of a pass and its end. -/
def Entry.IsIdle (timed : Nat → Bool) (e : Entry) : Prop :=
  (∀ registry a, e ≠ .sampleStarted registry a) ∧
    (∀ i result, timed i → e ≠ .layerLeft i (.returned result)) ∧ e.IsInner

section Entries

variable {timed : Nat → Bool} {xs ys : List Entry}

theorem started_append : Started (xs ++ ys) ↔ Started xs ∨ Started ys := by
  simp [Started, exists_or]

theorem returned_append : Returned timed (xs ++ ys) ↔ Returned timed xs ∨ Returned timed ys := by
  simp [Returned, and_or_left, exists_or]

theorem failed_append : Failed timed (xs ++ ys) ↔ Failed timed xs ∨ Failed timed ys := by
  simp [Failed, and_or_left, exists_or]

theorem Failed.returned (h : Failed timed xs) : Returned timed xs := by
  obtain ⟨i, e, hi, hmem⟩ := h
  exact ⟨i, .error e, hi, hmem⟩

theorem not_started_of_idle (h : ∀ e ∈ xs, e.IsIdle timed) : ¬ Started xs := by
  rintro ⟨registry, a, hmem⟩
  exact (h _ hmem).1 registry a rfl

theorem not_returned_of_idle (h : ∀ e ∈ xs, e.IsIdle timed) : ¬ Returned timed xs := by
  rintro ⟨i, result, hi, hmem⟩
  exact (h _ hmem).2.1 i result hi rfl

theorem not_failed_of_idle (h : ∀ e ∈ xs, e.IsIdle timed) : ¬ Failed timed xs :=
  fun hf => not_returned_of_idle h hf.returned

@[simp]
theorem not_started_nil : ¬ Started [] := by
  simp [Started]

@[simp]
theorem not_returned_nil : ¬ Returned timed [] := not_returned_of_idle (List.forall_mem_nil _)

@[simp]
theorem not_failed_nil : ¬ Failed timed [] := not_failed_of_idle (List.forall_mem_nil _)

theorem Entry.isIdle_layerLeft {position : Nat} (h : timed position = false) (ending : Ending) :
    (Entry.layerLeft position ending).IsIdle timed := by
  refine ⟨fun _ _ => nofun, fun i result hi he => ?_, fun _ => nofun, fun _ => nofun⟩
  cases he
  exact absurd hi (by simp [h])

theorem Entry.isIdle_logged (timed : Nat → Bool) (event : Event) :
    (Entry.logged event).IsIdle timed :=
  ⟨fun _ _ => nofun, fun _ _ _ => nofun, fun _ => nofun, fun _ => nofun⟩

theorem Entry.IsRecording.isIdle {registry : Nat} {elapsed : Duration} {a : Attribution} {e : Entry}
    (h : e.IsRecording registry elapsed a) : e.IsIdle timed := by
  rcases h with ⟨timer, rfl⟩ | ⟨timer, verdict, rfl⟩
  · exact isIdle_logged timed _
  · exact ⟨fun _ _ => nofun, fun _ _ _ => nofun, fun _ => nofun, fun _ => nofun⟩

end Entries

/-! ## The invariant -/

/-- **Closed**: a timing layer has stopped the sample. Before the last pass, only one that returned
an error did so; on the last pass, any that returned, unless work is deferred again. -/
def Closed (timed : Nat → Bool) (earlier last : List Entry) (x : Exchange σ) : Prop :=
  Failed timed earlier ∨ Failed timed last ∨ (x.pending = none ∧ Returned timed last)

theorem not_closed_of_not_returned {timed : Nat → Bool} {earlier last : List Entry}
    (h : ¬ Returned timed (earlier ++ last)) (x : Exchange σ) : ¬ Closed timed earlier last x := by
  rw [returned_append] at h
  rintro (hf | hf | ⟨-, hr⟩)
  · exact h (.inl hf.returned)
  · exact h (.inr hf.returned)
  · exact h (.inr hr)

/-- More entries without an error close nothing, unless a timing layer returned with nothing
pending. -/
theorem closed_append {timed : Nat → Bool} {earlier last more : List Entry} {x y : Exchange σ}
    (hfailed : ¬ Failed timed more) (hreturned : y.pending = none → ¬ Returned timed more)
    (hpending : y.pending = x.pending ∨ ¬ Returned timed last) :
    Closed timed earlier (last ++ more) y ↔ Closed timed earlier last x := by
  simp only [Closed, failed_append, returned_append, hfailed, or_false]
  rcases hpending with hpending | hnone
  · rw [hpending] at hreturned ⊢
    by_cases hx : x.pending = none
    · simp [hx, hreturned hx]
    · simp [hx]
  · by_cases hy : y.pending = none
    · simp [hnone, hreturned hy]
    · simp [hnone, hy]

/-- **The invariant**: what the journal gained since the given service, up to the last pass and on
it, tells whether the measurement of the exchange runs. -/
structure Tracked (timed : Nat → Bool) (base : Service σ) (earlier : List Entry) (p : Passage σ)
    (last : List Entry) : Prop where
  journal : p.service.journal = base.journal ++ (earlier ++ last)
  inner : ∀ e ∈ last, e.IsInner
  unmeasured : p.exchange.measurement = none →
    ¬ Started (earlier ++ last) ∧ ¬ Returned timed (earlier ++ last) ∧
      p.service.measurements = base.measurements
  runs_iff : ∀ m, p.exchange.measurement = some m →
    ((p.service.running? m).isSome ↔
      ((base.running? m).isSome ∨ Started (earlier ++ last)) ∧
        ¬ Closed timed earlier last p.exchange)

/-- The invariant with some entries as those of the last pass. -/
def Passage.Tracked (timed : Nat → Bool) (base : Service σ) (earlier : List Entry)
    (p : Passage σ) : Prop :=
  ∃ last, TimedHttp.Tracked timed base earlier p last

theorem Service.running?_congr {s t : Service σ} (h : t.measurements = s.measurements) (m : Nat) :
    t.running? m = s.running? m := by
  simp only [running?, h]

namespace Tracked

variable {timed : Nat → Bool} {base : Service σ} {earlier last more : List Entry}
  {p q : Passage σ}

/-- Nothing is closed before the exchange has a measurement. -/
theorem not_closed (h : Tracked timed base earlier p last) (hm : p.exchange.measurement = none)
    (x : Exchange σ) : ¬ Closed timed earlier last x :=
  not_closed_of_not_returned (h.unmeasured hm).2.1 x

/-- A step that leaves measurements alone, where a middleware may attach one. What is pending may
only change before the first timing layer of the pass has returned; a timing layer may return in
this step if work is pending. -/
theorem step (h : Tracked timed base earlier p last)
    (hjournal : q.service.journal = p.service.journal ++ more)
    (hmeasurements : q.service.measurements = p.service.measurements)
    (hstarted : ¬ Started more) (hinner : ∀ e ∈ more, e.IsInner)
    (hfailed : ¬ Failed timed more)
    (hreturned : Returned timed more →
      q.exchange.pending ≠ none ∧ p.exchange.measurement ≠ none)
    (hm : ∀ m, p.exchange.measurement = some m → q.exchange.measurement = some m)
    (hpending : q.exchange.pending = p.exchange.pending ∨ ¬ Returned timed last) :
    Tracked timed base earlier q (last ++ more) := by
  have hstarted' : Started (earlier ++ (last ++ more)) ↔ Started (earlier ++ last) := by
    simp [started_append, hstarted]
  have hclosed : Closed timed earlier (last ++ more) q.exchange ↔
      Closed timed earlier last p.exchange :=
    closed_append hfailed (fun hnone hr => (hreturned hr).1 hnone) hpending
  refine ⟨?_, ?_, ?_, ?_⟩
  · rw [hjournal, ← List.append_assoc earlier, ← List.append_assoc, ← h.journal]
  · intro e hmem
    exact (List.mem_append.mp hmem).elim (h.inner e) (hinner e)
  · intro hnone
    have hp : p.exchange.measurement = none := by
      cases hp : p.exchange.measurement with
      | none => rfl
      | some m => exact absurd ((hm m hp).symm.trans hnone) nofun
    have hmore : ¬ Returned timed more := fun hr => (hreturned hr).2 hp
    rw [hstarted', ← List.append_assoc, returned_append, hmeasurements]
    obtain ⟨hnot, hnotReturned, hbase⟩ := h.unmeasured hp
    exact ⟨hnot, fun hr => hr.elim hnotReturned hmore, hbase⟩
  · -- a measurement attached in this step is one of the given service
    intro m hq
    rw [hstarted', hclosed, Service.running?_congr hmeasurements]
    cases hp : p.exchange.measurement with
    | some n =>
      cases (hm n hp).symm.trans hq
      exact h.runs_iff m hp
    | none =>
      obtain ⟨hnot, -, hbase⟩ := h.unmeasured hp
      rw [Service.running?_congr hbase]
      simp [hnot, h.not_closed hp]

/-- A step of idle entries. -/
theorem quiet (h : Tracked timed base earlier p last)
    (hs : p.service.Quiet (Entry.IsIdle timed) q.service)
    (hm : ∀ m, p.exchange.measurement = some m → q.exchange.measurement = some m)
    (hpending : q.exchange.pending = p.exchange.pending ∨ ¬ Returned timed last) :
    ∃ more, (∀ e ∈ more, e.IsIdle timed) ∧ Tracked timed base earlier q (last ++ more) := by
  have hmeasurements := hs.measurements
  obtain ⟨state, early, more, -, hmore, hs⟩ := hs
  have hjournal : q.service.journal = p.service.journal ++ more := by rw [hs]
  refine ⟨more, hmore, h.step hjournal hmeasurements (not_started_of_idle hmore) ?_
    (not_failed_of_idle hmore) ?_ hm hpending⟩
  · exact fun e he => (hmore e he).2.2
  · exact fun hr => absurd hr (not_returned_of_idle hmore)

/-- **A timing layer is entered.** -/
theorem enter (h : Tracked timed base earlier p last) (position : Nat) (layer : TimingLayer σ)
    (hreturned : ¬ Returned timed last) :
    ∃ more, ¬ Returned timed more ∧
      Tracked timed base earlier (Chain.entered position layer p) (last ++ more) := by
  cases hp : p.exchange.measurement with
  | some m =>
    have hidle : ∀ e ∈ [Entry.layerEntered position, .measuring position m], e.IsIdle timed := by
      simp [Entry.IsIdle, Entry.IsInner]
    rw [Chain.entered_of_some _ _ hp]
    obtain ⟨more, hmore, htracked⟩ := h.quiet (q := { p with service := _ })
      (.told p.service p.service.state hidle) (fun _ hm => hm) (.inr hreturned)
    exact ⟨more, not_returned_of_idle hmore, htracked⟩
  | none =>
    obtain ⟨registries, events, -, -, heq⟩ := Chain.entered_of_none position layer hp
    -- no timing layer was entered before, so the new measurement runs
    obtain ⟨hstarted, hreturnedAll, hbase⟩ := h.unmeasured hp
    refine ⟨.layerEntered position ::
      .sampleStarted layer.registry (.ofRequest p.exchange.request) ::
      (events.map .logged ++ [.measuring position p.service.measurements.length]), ?_, ?_⟩
    · simp [Returned]
    · refine ⟨?_, ?_, ?_, ?_⟩
      · rw [heq, ← List.append_assoc earlier, ← List.append_assoc, ← h.journal]
      · intro e hmem
        refine (List.mem_append.mp hmem).elim (h.inner e) fun hmem => ?_
        simp only [List.mem_cons, List.mem_append, List.mem_map, List.not_mem_nil, or_false] at hmem
        rcases hmem with rfl | rfl | ⟨event, -, rfl⟩ | rfl <;> simp [Entry.IsInner]
      · rw [heq]
        exact nofun
      · intro m hm
        rw [heq] at hm ⊢
        cases hm
        refine iff_of_true (Option.isSome_iff_exists.mpr ⟨_, Service.running?_eq_some_iff.mpr
          List.getElem?_concat_length⟩) ⟨.inr ?_, not_closed_of_not_returned ?_ _⟩
        · exact ⟨layer.registry, .ofRequest p.exchange.request, by simp⟩
        · rw [← List.append_assoc, returned_append]
          simpa [Returned] using hreturnedAll

/-- **A timing layer has closed** the measurement. -/
theorem close (h : Tracked timed base earlier p last) {m : Nat}
    (hm : q.exchange.measurement = some m)
    (hjournal : q.service.journal = p.service.journal ++ more)
    (hinner : ∀ e ∈ more, e.IsInner) (hstopped : q.service.running? m = none)
    (hclosed : Closed timed earlier (last ++ more) q.exchange) :
    Tracked timed base earlier q (last ++ more) := by
  refine ⟨?_, ?_, ?_, ?_⟩
  · rw [hjournal, ← List.append_assoc earlier, ← List.append_assoc, ← h.journal]
  · intro e hmem
    exact (List.mem_append.mp hmem).elim (h.inner e) (hinner e)
  · exact fun hnone => absurd (hm.symm.trans hnone) nofun
  · intro n hn
    cases hm.symm.trans hn
    simp [hstopped, hclosed]

end Tracked

/-! ## Stopping -/

theorem TimingLayer.close_stops (timed : Nat → Bool) (layer : TimingLayer σ) (m : Nat)
    (x : Exchange σ) (failure : Option Failure) (s : Service σ) :
    (layer.close m x failure s).running? m = none ∧
      ∃ more, (∀ e ∈ more, e.IsIdle timed) ∧
        (layer.close m x failure s).journal = s.journal ++ more := by
  cases hs : s.running? m with
  | none =>
    rw [close_of_stopped hs]
    exact ⟨hs, [.logged .sampleAlreadyStopped], by simp [Entry.isIdle_logged], rfl⟩
  | some running =>
    obtain ⟨registries, warnings, elapsed, recordings, stopped, -, hrecordings, -, hclose⟩ :=
      layer.close_eq x failure (hs.trans rfl : s.running? m = some (running.1, running.2))
    rw [hclose]
    refine ⟨by simp [Service.running?, List.getElem?_set], _, ?_, rfl⟩
    intro e he
    simp only [List.mem_cons, List.mem_append, List.mem_map, List.not_mem_nil, or_false] at he
    rcases he with rfl | ⟨event, -, rfl⟩ | rfl | he | rfl
    · simp [Entry.IsIdle, Entry.IsInner]
    · exact Entry.isIdle_logged timed event
    · simp [Entry.IsIdle, Entry.IsInner]
    · exact (hrecordings e he).isIdle
    · exact Entry.isIdle_logged timed _

theorem Service.abandon_stops (timed : Nat → Bool) (s : Service σ) (m : Nat) :
    (s.abandon m).running? m = none ∧
      ∃ more, (∀ e ∈ more, e.IsIdle timed) ∧ (s.abandon m).journal = s.journal ++ more := by
  cases hs : s.running? m with
  | none =>
    rw [abandon_of_stopped hs]
    exact ⟨hs, [], List.forall_mem_nil _, (List.append_nil _).symm⟩
  | some running =>
    rw [abandon_eq (hs.trans rfl : s.running? m = some (running.1, running.2))]
    exact ⟨by simp [running?, List.getElem?_set], _, by simp [Entry.IsIdle, Entry.IsInner], rfl⟩

/-! ## Over a pass -/

namespace Tracked

variable {timed : Nat → Bool} {base : Service σ} {earlier last : List Entry} {p : Passage σ}

/-- **A timing layer is left.** It closes the measurement if its inner stages returned, unless they
returned without an error and left work. -/
theorem leave (h : Tracked timed base earlier p last) {m : Nat}
    (hm : p.exchange.measurement = some m) {position : Nat} (hp : timed position = true)
    (layer : TimingLayer σ) (ending : Ending) :
    ((layer.leave m p ending).note (.layerLeft position ending)).Tracked timed base earlier := by
  have hlogged := Entry.isIdle_logged timed
  -- the layer returned: its entry closes the measurement by the state in which it leaves things
  have hclose : ∀ (x : Exchange σ) (failure : Option Failure) (result : Except ChainError Unit)
      (y : Exchange σ), y.measurement = some m →
      (y.pending = none ∨ ∃ e, result = .error e) →
      (Passage.note { service := layer.close m x failure p.service, exchange := y }
        (.layerLeft position (.returned result))).Tracked timed base earlier := by
    intro x failure result y hy hresult
    obtain ⟨hstops, more, hmore, hjournal⟩ := layer.close_stops timed m x failure p.service
    refine ⟨last ++ (more ++ [.layerLeft position (.returned result)]),
      h.close hy ?_ ?_ hstops ?_⟩
    · rw [← List.append_assoc, ← hjournal]
      rfl
    · intro e hmem
      rcases List.mem_append.mp hmem with hmem | hmem
      · exact (hmore e hmem).2.2
      · rw [List.mem_singleton.mp hmem]
        simp [Entry.IsInner]
    · rcases hresult with hpending | ⟨e, rfl⟩
      · exact .inr (.inr ⟨hpending, position, result, hp, by simp⟩)
      · exact .inr (.inl ⟨position, e, hp, by simp⟩)
  match ending with
  | .crashed message =>
    obtain ⟨more, -, htracked⟩ := h.quiet (q := p.note (.layerLeft position (.crashed message)))
      (.note p.service (by simp [Entry.IsIdle, Entry.IsInner])) (fun _ h => h) (.inl rfl)
    exact ⟨_, htracked⟩
  | .returned (.error e) => exact hclose _ _ _ _ hm (.inr ⟨e, rfl⟩)
  | .returned (.ok ()) =>
    by_cases hpending : p.exchange.pending = none
    · rw [TimingLayer.leave_of_finished hpending]
      exact hclose _ _ _ _ hm (.inl hpending)
    · rw [TimingLayer.leave_of_deferred hpending]
      have hjournal : ((p.log .sampleLeftRunning).note
            (.layerLeft position (.returned (.ok ())))).service.journal =
          p.service.journal ++
            [.logged .sampleLeftRunning, .layerLeft position (.returned (.ok ()))] := by
        simp [Passage.note, Passage.log, Service.log, Service.note]
      refine ⟨_, h.step hjournal rfl ?_ ?_ ?_ ?_ (fun _ h => h) (.inl rfl)⟩
      · simp [Started]
      · simp [Entry.IsInner]
      · simp [Failed]
      · exact fun _ => ⟨hpending, by simp [hm]⟩

end Tracked

namespace Chain

variable {timed : Nat → Bool} {base : Service σ} {earlier : List Entry}

/-- **A pass keeps the invariant**, whatever its middlewares do. -/
theorem tracked_run (position : Nat) (layers : List (Layer σ)) (p : Passage σ)
    (htimed : TimedAs timed position layers) {last : List Entry}
    (hp : Tracked timed base earlier p last) (hreturned : ¬ Returned timed last) :
    (run position layers p).1.Tracked timed base earlier := by
  suffices h : (run position layers p).1.Tracked timed base earlier ∧
      ∀ m, p.exchange.measurement = some m →
        (run position layers p).1.exchange.measurement = some m from h.1
  revert htimed last
  refine run_rec
    (motive := fun position layers p q _ => TimedAs timed position layers →
      ∀ {last : List Entry}, Tracked timed base earlier p last → ¬ Returned timed last →
        q.Tracked timed base earlier ∧
          ∀ m, p.exchange.measurement = some m → q.exchange.measurement = some m)
    ?nil ?timing ?stop ?proceed position layers p
  case nil =>
    intro _ p _ last hp hreturned
    have hkeep : ∀ m, p.exchange.measurement = some m →
        (endpoint p).1.exchange.measurement = some m := fun _ h => (measurement_endpoint p).trans h
    have hquiet : p.service.Quiet (Entry.IsIdle timed) (endpoint p).1.service := by
      refine (quiet_endpoint p).mono ?_
      rintro e (rfl | rfl) <;> simp [Entry.IsIdle, Entry.IsInner]
    obtain ⟨more, -, htracked⟩ := hp.quiet hquiet hkeep (.inr hreturned)
    exact ⟨⟨_, htracked⟩, hkeep⟩
  case timing =>
    intro position layer rest p q ending ih htimed last hp hreturned
    obtain ⟨more, hmore, hentered⟩ := hp.enter position layer hreturned
    obtain ⟨⟨last', hq⟩, hkeep⟩ := ih htimed.tail hentered fun hr =>
      (returned_append.mp hr).elim hreturned hmore
    have hm : q.exchange.measurement = some (measured position layer p) :=
      hkeep _ (measurement_entered position layer p)
    refine ⟨hq.leave hm htimed.head layer ending, fun m h => ?_⟩
    have hin := (edited_entered position layer p).measurement h
    exact (layer.edited_leave _ q ending).measurement (hkeep m hin)
  case stop =>
    intro position middleware rest p ending _ htimed last hp hreturned
    have hedited := edited_firstTurn position middleware p
    have hcustom : timed position = false := htimed.head
    have hfirst := quiet_firstTurn (P := Entry.IsIdle timed) position middleware p
      (by simp [Entry.IsIdle, Entry.IsInner])
    obtain ⟨more, -, htracked⟩ := hp.quiet
      (q := (firstTurn position middleware p).note (.layerLeft position ending))
      (hfirst.trans (.note _ (Entry.isIdle_layerLeft hcustom _))) (fun m h => hedited.measurement h)
      (.inr hreturned)
    exact ⟨⟨_, htracked⟩, fun m h => hedited.measurement h⟩
  case proceed =>
    intro position middleware rest p after q ending _ ih htimed last hp hreturned
    have hcustom : timed position = false := htimed.head
    have hfirst := edited_firstTurn position middleware p
    obtain ⟨more, hmore, htracked⟩ := hp.quiet (q := firstTurn position middleware p)
      (quiet_firstTurn position middleware p (by simp [Entry.IsIdle, Entry.IsInner]))
      (fun m h => hfirst.measurement h) (.inr hreturned)
    obtain ⟨⟨last', hq⟩, hkeep⟩ := ih htimed.tail htracked fun hr =>
      (returned_append.mp hr).elim hreturned (not_returned_of_idle hmore)
    have hsecond := q.edited_take (after q.sight ending)
    obtain ⟨more', -, htracked'⟩ := hq.quiet
      (q := (q.take (after q.sight ending)).note (.layerLeft position (after q.sight ending).next))
      ((Passage.quiet_take q _).trans (.note _ (Entry.isIdle_layerLeft hcustom _)))
      (fun m h => hsecond.measurement h) (.inl hsecond.pending)
    exact ⟨⟨_, htracked'⟩, fun m h => hsecond.measurement (hkeep m (hfirst.measurement h))⟩

end Chain

/-! ## Over all passes -/

namespace App

variable {base : Service σ} {earlier last : List Entry}

/-- **From the beginning of a pass to the end of the chain.** -/
theorem tracked_opened {app : App σ} {p : Passage σ}
    (hp : Tracked app.timesAt base earlier p []) :
    (Chain.run 0 app.layers (opened p)).1.Tracked app.timesAt base
      (earlier ++ [.passBegan p.exchange.kind]) := by
  suffices hopened : Tracked app.timesAt base (earlier ++ [.passBegan p.exchange.kind])
      (opened p) []
    from Chain.tracked_run 0 app.layers (opened p) (.of_app app) hopened not_returned_nil
  obtain ⟨hjournal, -, hunmeasured, hruns⟩ := hp
  have hstarted : Started (earlier ++ [.passBegan p.exchange.kind]) ↔ Started earlier := by
    simp [Started]
  have hreturned : Returned app.timesAt (earlier ++ [.passBegan p.exchange.kind]) ↔
      Returned app.timesAt earlier := by simp [Returned]
  have hclosed : Closed app.timesAt (earlier ++ [.passBegan p.exchange.kind]) [] p.exchange ↔
      Closed app.timesAt earlier [] p.exchange := by simp [Closed, Failed, Returned]
  rw [List.append_nil] at hjournal hunmeasured
  refine ⟨?_, List.forall_mem_nil _, ?_, ?_⟩
  · rw [List.append_nil, ← List.append_assoc]
    exact congrArg (· ++ _) hjournal
  · rw [List.append_nil, hstarted, hreturned]
    exact hunmeasured
  · intro m hm
    have hiff := hruns m hm
    rw [List.append_nil] at hiff ⊢
    rw [hstarted]
    exact hiff.trans (and_congr_right' (not_congr hclosed.symm))

/-- **Deferred work is run**: what was the last pass is one of the earlier ones. -/
theorem tracked_runWork {timed : Nat → Bool} {q : Passage σ} {work : Work σ}
    (hq : Tracked timed base earlier q last) (hpending : q.exchange.pending = some work)
    (ending : Ending) :
    ∃ earlier, Tracked timed base earlier ((q.note (.passEnded ending)).runWork work) [] := by
  obtain ⟨state, more, hmore, hservice, hexchange⟩ :
      ∃ state more, (∀ e ∈ more, e.IsIdle timed) ∧
        ((q.note (.passEnded ending)).runWork work).service =
          { q.service with
            state, journal := q.service.journal ++ [.passEnded ending] ++ more } ∧
        ((q.note (.passEnded ending)).runWork work).exchange.measurement =
          q.exchange.measurement := by
    rcases (q.note (.passEnded ending)).runWork_cases work with
      ⟨reply, -, -, heq⟩ | ⟨e, status, -, heq⟩
    · rw [heq]
      exact ⟨_, _, by simp [Entry.IsIdle, Entry.IsInner], rfl, rfl⟩
    · rw [heq]
      exact ⟨_, _, by simp [Entry.IsIdle, Entry.IsInner], rfl, rfl⟩
  have hmeasurements : ((q.note (.passEnded ending)).runWork work).service.measurements =
      q.service.measurements := by rw [hservice]
  obtain ⟨hS, hR, hF⟩ : ¬ Started [.passEnded ending] ∧ ¬ Returned timed [.passEnded ending] ∧
      ¬ Failed timed [.passEnded ending] := by simp [Started, Returned, Failed]
  have hstarted : Started (earlier ++ last ++ [.passEnded ending] ++ more) ↔
      Started (earlier ++ last) := by
    simp only [started_append, hS, not_started_of_idle hmore, or_false]
  have hreturned : Returned timed (earlier ++ last ++ [.passEnded ending] ++ more) ↔
      Returned timed (earlier ++ last) := by
    simp only [returned_append, hR, not_returned_of_idle hmore, or_false]
  -- work is pending, so only the errors of the last pass have closed anything
  have hclosed : Closed timed (earlier ++ last ++ [.passEnded ending] ++ more) []
      ((q.note (.passEnded ending)).runWork work).exchange ↔
      Closed timed earlier last q.exchange := by
    simp only [Closed, failed_append, hF, not_failed_of_idle hmore, hpending, not_failed_nil,
      not_returned_nil, reduceCtorEq, or_false, false_and, and_false]
  refine ⟨earlier ++ last ++ [.passEnded ending] ++ more, ?_, List.forall_mem_nil _, ?_, ?_⟩
  · rw [hservice, List.append_nil]
    simp [hq.journal]
  · rw [List.append_nil, hexchange, hstarted, hreturned, hmeasurements]
    exact hq.unmeasured
  · intro m hm
    rw [List.append_nil, hstarted, hclosed, Service.running?_congr hmeasurements]
    exact hq.runs_iff m (hexchange.symm.trans hm)

/-- The error that ended the exchange was answered, and its measurement does not run. -/
theorem answerError_stops (timed : Nat → Bool) (p : Passage σ) (e : ChainError) {m : Nat}
    (hm : p.exchange.measurement = some m) :
    (p.answerError e).service.running? m = none ∧
      ∃ more, (∀ e ∈ more, e.IsIdle timed) ∧
        (p.answerError e).service.journal = p.service.journal ++ more := by
  obtain ⟨dropped, -, heq⟩ := p.answerError_eq e
  rw [heq, hm]
  obtain ⟨hstops, more, hmore, hjournal⟩ := Service.abandon_stops timed
    { p.service with
      journal := p.service.journal ++
        .logged (.requestFailed e p.exchange.status.orServerError) :: dropped.map .logged } m
  refine ⟨hstops, _, ?_, hjournal.trans (List.append_assoc _ _ _)⟩
  intro e he
  simp only [List.cons_append, List.mem_cons, List.mem_append, List.mem_map] at he
  rcases he with rfl | ⟨event, -, rfl⟩ | he
  · exact Entry.isIdle_logged timed _
  · exact Entry.isIdle_logged timed _
  · exact hmore e he

/-- **The last pass** of a request, from its beginning to the end of the chain. -/
theorem tracked_last {app : App σ} {request : Request} {service : Service σ} {p : Passage σ}
    {crash : Option String} (h : app.run? request service = some (p, crash)) :
    ∃ before p₀ last, app.pass p₀ = .final p crash ∧
      Tracked app.timesAt service (before ++ [.passBegan p₀.exchange.kind])
        (Chain.run 0 app.layers (opened p₀)).1 last := by
  have hstart : Tracked app.timesAt service [] (app.start request service) [] := by
    obtain ⟨params, route, hx⟩ := app.begin_fresh request
    refine ⟨(List.append_nil _).symm, List.forall_mem_nil _, ?_, ?_⟩
    · exact fun _ => ⟨not_started_nil, not_returned_nil, rfl⟩
    · intro m hm
      simp [start, hx, Exchange.fresh] at hm
  obtain ⟨p₀, ⟨before, hp₀⟩, hpass⟩ := run?_rec
    (I := fun p => ∃ earlier, Tracked app.timesAt service earlier p []) ⟨[], hstart⟩
    (fun p p' ⟨earlier, hp⟩ hpass => by
      obtain ⟨-, work, hwork, rfl⟩ := pass_eq_again_iff.mp hpass
      obtain ⟨last, hq⟩ := tracked_opened hp
      exact tracked_runWork hq hwork _) h
  obtain ⟨last, hq⟩ := tracked_opened hp₀
  exact ⟨before, p₀, last, hpass, hq⟩

/-- When nothing is pending, every timing layer whose inner stages returned has stopped the
sample. -/
theorem runs_iff_of_done {timed : Nat → Bool} {before : List Entry} {kind : PassKind}
    {q : Passage σ} (hq : Tracked timed base (before ++ [.passBegan kind]) q last)
    (hpending : q.exchange.pending = none) {m : Nat} (hm : q.exchange.measurement = some m) :
    (q.service.running? m).isSome ↔
      ¬ Returned timed last ∧ ¬ Failed timed before ∧
        ((base.running? m).isSome ∨ Started (before ++ last)) := by
  have hiff := hq.runs_iff m hm
  have hbegan : ¬ Failed timed [.passBegan kind] := by simp [Failed]
  have hclosed : Closed timed (before ++ [.passBegan kind]) last q.exchange ↔
      Failed timed before ∨ Returned timed last := by
    simp only [Closed, hpending, true_and, failed_append, hbegan, or_false]
    exact or_congr_right ⟨fun h => h.elim Failed.returned id, .inr⟩
  have hstarted : Started (before ++ [.passBegan kind] ++ last) ↔ Started (before ++ last) := by
    simp [Started]
  rw [hclosed, hstarted, not_or] at hiff
  exact hiff.trans ⟨fun ⟨hs, hf, hr⟩ => ⟨hr, hf, hs⟩, fun ⟨hr, hf, hs⟩ => ⟨hs, hf, hr⟩⟩

/-- **Whether the sample runs after the response**, exactly. It does if and only if the chain ended
the last pass without an error, no timing layer saw its inner stages return on that pass, none saw
them return an error before, and the measurement was started for this request, or was running when a
middleware attached it. -/
theorem sample_runs_iff {app : App σ} {request : Request} {service : Service σ} {p : Passage σ}
    (h : app.run? request service = some (p, none)) {m : Nat}
    (hm : p.exchange.measurement = some m) :
    ∃ earlier kind last,
      p.service.journal = service.journal ++ (earlier ++ .passBegan kind :: last) ∧
      (∀ kind', .passBegan kind' ∉ last) ∧
      ((p.service.running? m).isSome ↔
        .passEnded (.returned (.ok ())) ∈ last ∧
          (∀ i, app.timesAt i → ∀ result, .layerLeft i (.returned result) ∉ last) ∧
          (∀ i, app.timesAt i → ∀ e, .layerLeft i (.returned (.error e)) ∉ earlier) ∧
          ((service.running? m).isSome ∨
            ∃ registry a, .sampleStarted registry a ∈ earlier ++ last)) := by
  obtain ⟨before, p₀, last, hpass, hq⟩ := tracked_last h
  have hended : (app.ended p₀).1.service.journal = service.journal ++
      (before ++ .passBegan p₀.exchange.kind :: (last ++ [.passEnded (app.ended p₀).2])) := by
    refine (congrArg (· ++ [Entry.passEnded (app.ended p₀).2]) hq.journal).trans ?_
    simp
  rcases pass_eq_final_iff.mp hpass with
    ⟨message, -, -, hcrash⟩ | ⟨e, he, rfl, -⟩ | ⟨hok, hpending, rfl, -⟩
  · cases hcrash
  · -- an error: the measurement is abandoned, if it still ran
    rw [Passage.measurement_answerError] at hm
    obtain ⟨hstops, more, hmore, hjournal⟩ := answerError_stops app.timesAt (app.ended p₀).1 e hm
    refine ⟨before, p₀.exchange.kind, last ++ [.passEnded (app.ended p₀).2] ++ more, ?_, ?_, ?_⟩
    · rw [hjournal, hended]
      simp
    · simp only [List.mem_append, List.mem_singleton, reduceCtorEq, or_false, not_or]
      exact fun kind => ⟨fun hmem => (hq.inner _ hmem).1 kind rfl,
        fun hmem => (hmore _ hmem).2.2.1 kind rfl⟩
    · rw [hstops]
      refine iff_of_false nofun fun ⟨hmem, _⟩ => ?_
      simp only [List.mem_append, List.mem_singleton, he] at hmem
      rcases hmem with (hmem | hmem) | hmem
      · exact (hq.inner _ hmem).2 _ rfl
      · cases hmem
      · exact (hmore _ hmem).2.2.2 _ rfl
  · -- no error: the timing layers alone have decided
    have hiff := runs_iff_of_done hq hpending hm
    have hmem : Entry.passEnded (.returned (.ok ())) ∈ last ++ [.passEnded (app.ended p₀).2] := by
      rw [hok]
      exact List.mem_append_right _ List.mem_cons_self
    refine ⟨before, _, last ++ [.passEnded (app.ended p₀).2], hended, ?_, ?_⟩
    · simp only [List.mem_append, List.mem_singleton, reduceCtorEq, or_false]
      exact fun kind hmem => (hq.inner _ hmem).1 kind rfl
    · refine hiff.trans ?_
      simp [Returned, Failed, Started, hmem]

end App

/-! ## A pass that ends before the timing layer -/

/-- The middleware that goes on when the request comes in, and answers later passes by itself. -/
def Middleware.firstPassOnly : Middleware σ := fun sight =>
  match sight.exchange.kind with
  | .request => transparent sight
  | .resumed => { state := sight.state, next := .stop (.returned (.ok ())) }

namespace Exports

/-- A timing layer inside of a middleware that answers later passes by itself. -/
def skipping : App Unit :=
  { routes := routes (.answer (.bare { code := 202 }))
    layers := [.custom .firstPassOnly, .timing { registry := 0 }, .custom .transparent] }

theorem run?_skipping :
    ∃ p, skipping.run? request { state := () } = some (p, none) ∧
      (p.exchange.measurement, (p.service.running? 0).isSome, p.exchange.response) =
        (some 0, true, .bare .ok) := by
  obtain ⟨⟨p, crash⟩, hrun, heq⟩ := Option.map_eq_some_iff.mp
    (show (skipping.run? request { state := () }).map (fun q => (q.2, q.1.exchange.measurement,
      (q.1.service.running? 0).isSome, q.1.exchange.response)) =
        some (none, some 0, true, .bare .ok) by decide)
  obtain ⟨hcrash, hrest⟩ := Prod.mk.inj heq
  cases hcrash
  exact ⟨p, hrun, hrest⟩

/-- **A sample that nothing stops**: the request is answered, and its sample runs on. -/
theorem sample_left_running :
    ∃ p, skipping.run? request { state := () } = some (p, none) ∧
      skipping.handle request { state := () } = (p.service, .ok (.bare .ok)) ∧
      p.exchange.measurement = some 0 ∧ (p.service.running? 0).isSome := by
  obtain ⟨p, hrun, heq⟩ := run?_skipping
  simp only [Prod.mk.injEq] at heq
  refine ⟨p, hrun, ?_, heq.1, heq.2.1⟩
  rw [App.handle_of_run? hrun, heq.2.2]
  rfl

/-- What the journal says of that run. -/
theorem sample_runs_skipping :
    ∃ p earlier kind last, skipping.run? request { state := () } = some (p, none) ∧
      p.exchange.measurement = some 0 ∧
      p.service.journal = earlier ++ .passBegan kind :: last ∧
      .passEnded (.returned (.ok ())) ∈ last ∧
      ∀ i, skipping.timesAt i → ∀ result, .layerLeft i (.returned result) ∉ last := by
  obtain ⟨p, hrun, heq⟩ := run?_skipping
  simp only [Prod.mk.injEq] at heq
  obtain ⟨earlier, kind, last, hjournal, -, hiff⟩ := App.sample_runs_iff hrun heq.1
  obtain ⟨hended, hreturned, -, -⟩ := hiff.mp heq.2.1
  exact ⟨p, earlier, kind, last, hrun, heq.1, hjournal, hended, hreturned⟩

end Exports

end TimedHttp
