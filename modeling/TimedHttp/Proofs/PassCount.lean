import TimedHttp.Proofs.ErrorEscape

/-!
# Counting passes

The journal tells when a pass begins and when deferred work is run, and nothing but the dispatch of
the request tells either: between the beginning of a pass and the work that it leaves, only the
stages of the chain write to the journal. So the passes of a request can be counted in the journal,
and there is one more of them than there is work that was run.

## Main statements

* `Chain.adds_run` — what a pass adds to the journal
* `App.Begins.passes` — the passes and the work before the one that begins
* `App.Begins.passes_of_final` — all passes and all work of a request
-/

namespace TimedHttp

variable {σ : Type}

/-! ## Entries of a pass -/

namespace Entry

/-- A pass begins. -/
def isBeginning : Entry → Bool
  | passBegan _ => true
  | _ => false

/-- Deferred work was run. -/
def isWork : Entry → Bool
  | workRan _ => true
  | _ => false

/-- The entry says neither that a pass begins or ends nor that work was run. -/
def IsStage (e : Entry) : Prop := e.IsInner ∧ ∀ deferrals, e ≠ .workRan deferrals

theorem IsStage.isBeginning {e : Entry} (h : e.IsStage) : e.isBeginning = false := by
  cases e with
  | passBegan kind => exact absurd rfl (h.1.1 kind)
  | _ => rfl

theorem IsStage.isWork {e : Entry} (h : e.IsStage) : e.isWork = false := by
  cases e with
  | workRan deferrals => exact absurd rfl (h.2 deferrals)
  | _ => rfl

/-- The entry does not say either that the handler was called. -/
def IsAside (e : Entry) : Prop := e.IsStage ∧ e ≠ .handlerCalled

theorem isAside_logged (event : Event) : (Entry.logged event).IsAside := by
  simp [IsAside, IsStage, IsInner]

/-- The entry tells of a log event or of a measurement: nothing else is written by what a timing
layer does between being entered and being left. -/
def IsTiming : Entry → Prop
  | logged _ | measuring .. | sampleStarted .. | sampleStopped _ | tagsResolved .. | recorded .. =>
    True
  | _ => False

theorem IsTiming.isAside {e : Entry} (h : e.IsTiming) : e.IsAside := by
  cases e <;> first | exact h.elim | simp [IsAside, IsStage, IsInner]

theorem IsRecording.isTiming {registry : Nat} {elapsed : Duration} {a : Attribution} {e : Entry}
    (h : e.IsRecording registry elapsed a) : e.IsTiming := by
  rcases h with ⟨timer, rfl⟩ | ⟨timer, verdict, rfl⟩ <;> trivial

theorem isAside_layerEntered (position : Nat) : (Entry.layerEntered position).IsAside := by
  simp [IsAside, IsStage, IsInner]

theorem isAside_layerLeft (position : Nat) (ending : Ending) :
    (Entry.layerLeft position ending).IsAside := by
  simp [IsAside, IsStage, IsInner]

end Entry

/-! ## What is added to the journal -/

/-- **Adds**: every entry that the journal gained satisfies `P`. -/
def Service.Adds (P : Entry → Prop) (s t : Service σ) : Prop :=
  ∃ entries, (∀ e ∈ entries, P e) ∧ t.journal = s.journal ++ entries

namespace Service.Adds

variable {P Q : Entry → Prop} {s t u : Service σ}

theorem refl (s : Service σ) : s.Adds P s := ⟨[], List.forall_mem_nil _, (List.append_nil _).symm⟩

theorem trans (hst : s.Adds P t) (htu : t.Adds P u) : s.Adds P u := by
  obtain ⟨entries, he, hjournal⟩ := hst
  obtain ⟨entries', he', hjournal'⟩ := htu
  refine ⟨entries ++ entries', fun e h => (List.mem_append.mp h).elim (he e) (he' e), ?_⟩
  rw [hjournal', hjournal, List.append_assoc]

theorem mono (h : s.Adds P t) (hPQ : ∀ e, P e → Q e) : s.Adds Q t := by
  obtain ⟨entries, he, hjournal⟩ := h
  exact ⟨entries, fun e hmem => hPQ e (he e hmem), hjournal⟩

theorem of_quiet (h : s.Quiet P t) : s.Adds P t := by
  obtain ⟨state, early, entries, -, he, rfl⟩ := h
  exact ⟨entries, he, rfl⟩

theorem note (s : Service σ) {e : Entry} (h : P e) : s.Adds P (s.note e) :=
  of_quiet (.note s h)

end Service.Adds

/-- **Gains**: what the journal gained reads `read`, if `f` says what is read of each entry. -/
def Service.Gains {α : Type} (f : Entry → Option α) (s t : Service σ) (read : List α) : Prop :=
  ∃ entries, t.journal = s.journal ++ entries ∧ entries.filterMap f = read

namespace Service.Gains

variable {α : Type} {f : Entry → Option α} {s t u : Service σ} {read more : List α}

theorem trans (hst : s.Gains f t read) (htu : t.Gains f u more) : s.Gains f u (read ++ more) := by
  obtain ⟨entries, hjournal, rfl⟩ := hst
  obtain ⟨entries', hjournal', rfl⟩ := htu
  refine ⟨entries ++ entries', ?_, List.filterMap_append⟩
  rw [hjournal', hjournal, List.append_assoc]

/-- Nothing is read of entries on which `f` says nothing. -/
theorem of_adds {P : Entry → Prop} (h : s.Adds P t) (hP : ∀ e, P e → f e = none) :
    s.Gains f t [] := by
  obtain ⟨entries, he, hjournal⟩ := h
  exact ⟨entries, hjournal, List.filterMap_eq_nil_iff.mpr fun e hmem => hP e (he e hmem)⟩

/-- One more entry, of which nothing is read. -/
theorem note (h : s.Gains f t read) {e : Entry} (he : f e = none) : s.Gains f (t.note e) read := by
  have hnote : t.Gains f (t.note e) [] := ⟨[e], rfl, by simp [he]⟩
  have hall := h.trans hnote
  rwa [List.append_nil] at hall

/-- Steps of which nothing is read, before and after. -/
theorem around {P : Entry → Prop} {v : Service σ} (hP : ∀ e, P e → f e = none)
    (hst : s.Adds P t) (htu : t.Gains f u read) (huv : u.Adds P v) : s.Gains f v read := by
  have hall := ((of_adds hst hP).trans htu).trans (of_adds huv hP)
  rwa [List.nil_append, List.append_nil] at hall

end Service.Gains

/-! ## What the stages add -/

theorem TimingLayer.adds_close (layer : TimingLayer σ) (m : Nat) (x : Exchange σ)
    (failure : Option Failure) (s : Service σ) :
    s.Adds Entry.IsTiming (layer.close m x failure s) := by
  cases hs : s.running? m with
  | none =>
    rw [close_of_stopped hs]
    exact .note s trivial
  | some running =>
    obtain ⟨registries, warnings, elapsed, entries, stopped, -, hentries, -, hclose⟩ :=
      layer.close_eq x failure (hs.trans rfl : s.running? m = some (running.1, running.2))
    rw [hclose]
    refine ⟨_, ?_, rfl⟩
    intro e he
    simp only [List.mem_cons, List.mem_append, List.mem_map, List.not_mem_nil, or_false] at he
    rcases he with rfl | ⟨event, -, rfl⟩ | rfl | he | rfl
    · trivial
    · trivial
    · trivial
    · exact (hentries e he).isTiming
    · trivial

namespace Chain

/-- Once a timing layer is entered, it writes of its measurement only. -/
theorem adds_entered_timing (position : Nat) (layer : TimingLayer σ) (p : Passage σ) :
    (p.service.note (.layerEntered position)).Adds Entry.IsTiming
      (entered position layer p).service := by
  cases hm : p.exchange.measurement with
  | some m =>
    rw [entered_of_some _ _ hm]
    refine ⟨[.measuring position m], ?_, (List.append_assoc _ [_] _).symm⟩
    exact fun e he => List.mem_singleton.mp he ▸ trivial
  | none =>
    obtain ⟨registries, events, -, -, heq⟩ := entered_of_none position layer hm
    rw [heq]
    refine ⟨_, ?_, (List.append_assoc _ [_] _).symm⟩
    intro e he
    simp only [List.mem_cons, List.mem_append, List.mem_map, List.not_mem_nil, or_false] at he
    rcases he with rfl | ⟨event, -, rfl⟩ | rfl <;> trivial

theorem adds_entered (position : Nat) (layer : TimingLayer σ) (p : Passage σ) :
    p.service.Adds Entry.IsAside (entered position layer p).service :=
  (Service.Adds.note p.service (Entry.isAside_layerEntered position)).trans
    ((adds_entered_timing position layer p).mono fun _ h => h.isAside)

theorem adds_leave (layer : TimingLayer σ) (m : Nat) (p : Passage σ) (ending : Ending) :
    p.service.Adds Entry.IsTiming (layer.leave m p ending).service := by
  match ending with
  | .crashed message => exact .refl _
  | .returned (.error e) => exact layer.adds_close m _ _ _
  | .returned (.ok ()) =>
    by_cases hpending : p.exchange.pending = none
    · rw [TimingLayer.leave_of_finished hpending]
      exact layer.adds_close m _ _ _
    · rw [TimingLayer.leave_of_deferred hpending]
      exact .note _ trivial

/-- **A pass adds entries of its stages**, and neither begins another nor runs work. -/
theorem adds_run (position : Nat) (layers : List (Layer σ)) (p : Passage σ) :
    p.service.Adds Entry.IsStage (run position layers p).1.service := by
  have hentered : ∀ position, (Entry.layerEntered position).IsStage :=
    fun position => (Entry.isAside_layerEntered position).1
  have hleft : ∀ position ending, (Entry.layerLeft position ending).IsStage :=
    fun position ending => (Entry.isAside_layerLeft position ending).1
  refine run_rec (motive := fun _ _ p q _ => p.service.Adds Entry.IsStage q.service)
    ?nil ?timing ?stop ?proceed position layers p
  case nil =>
    intro _ p
    refine .of_quiet ((quiet_endpoint p).mono ?_)
    rintro e (rfl | rfl) <;> simp [Entry.IsStage, Entry.IsInner]
  case timing =>
    intro position layer _ p q ending hinner
    have hin := (adds_entered position layer p).mono fun _ h => h.1
    have hout := (adds_leave layer (measured position layer p) q ending).mono fun _ h => h.isAside.1
    exact hin.trans (hinner.trans (hout.trans (.note _ (hleft _ _))))
  case stop =>
    intro position middleware _ p ending _
    exact .of_quiet ((quiet_firstTurn position middleware p (hentered _)).trans
      (.note _ (hleft _ _)))
  case proceed =>
    intro position middleware _ p after q ending _ hinner
    refine (Service.Adds.of_quiet
      (quiet_firstTurn position middleware p (hentered _))).trans (hinner.trans ?_)
    exact .of_quiet ((Passage.quiet_take q _).trans (.note _ (hleft _ _)))

end Chain

/-! ## Counting -/

/-- **Passes**: between two services so many passes began, and so much work was run. -/
def Service.Passes (s t : Service σ) (passes works : Nat) : Prop :=
  ∃ entries, t.journal = s.journal ++ entries ∧
    entries.countP Entry.isBeginning = passes ∧ entries.countP Entry.isWork = works

namespace Service.Passes

variable {s t u : Service σ} {a b c d : Nat}

theorem refl (s : Service σ) : s.Passes s 0 0 := ⟨[], (List.append_nil _).symm, rfl, rfl⟩

theorem trans (hst : s.Passes t a b) (htu : t.Passes u c d) : s.Passes u (a + c) (b + d) := by
  obtain ⟨entries, hjournal, rfl, rfl⟩ := hst
  obtain ⟨entries', hjournal', rfl, rfl⟩ := htu
  refine ⟨entries ++ entries', ?_, List.countP_append, List.countP_append⟩
  rw [hjournal', hjournal, List.append_assoc]

theorem of_adds (h : s.Adds Entry.IsStage t) : s.Passes t 0 0 := by
  obtain ⟨entries, he, hjournal⟩ := h
  refine ⟨entries, hjournal, List.countP_eq_zero.mpr fun e hmem => ?_,
    List.countP_eq_zero.mpr fun e hmem => ?_⟩
  · simp [(he e hmem).isBeginning]
  · simp [(he e hmem).isWork]

end Service.Passes

namespace Passage

theorem passes_runWork (p : Passage σ) (work : Work σ) :
    p.service.Passes (p.runWork work).service 0 1 := by
  rcases p.runWork_cases work with ⟨reply, -, -, heq⟩ | ⟨e, status, -, heq⟩
  · rw [heq]
    exact ⟨_, rfl, rfl, rfl⟩
  · rw [heq]
    exact ⟨_, rfl, rfl, rfl⟩

theorem passes_answerError (p : Passage σ) (e : ChainError) :
    p.service.Passes (p.answerError e).service 0 0 := by
  obtain ⟨readings, measurements, heq, -⟩ := p.answerError_eq_aftermath e
  rw [heq]
  refine .of_adds ⟨p.aftermath e, fun entry hentry => ?_, rfl⟩
  rcases eq_of_mem_aftermath hentry with ⟨event, rfl⟩ | ⟨registry, rfl⟩
  · exact (Entry.isAside_logged event).1
  · simp [Entry.IsStage, Entry.IsInner]

end Passage

namespace App

variable {app : App σ} {request : Request} {service : Service σ} {n : Nat} {p q : Passage σ}

theorem passes_ended (app : App σ) (p : Passage σ) :
    p.service.Passes (app.ended p).1.service 1 0 := by
  have hbegan : p.service.Passes (opened p).service 1 0 := ⟨[_], rfl, rfl, rfl⟩
  have hended : (Chain.run 0 app.layers (opened p)).1.service.Passes (app.ended p).1.service 0 0 :=
    ⟨[_], rfl, rfl, rfl⟩
  exact (hbegan.trans (.of_adds (Chain.adds_run 0 app.layers (opened p)))).trans hended

/-- **Before a pass begins**, all that came before have begun, and each has left work that was
run. -/
theorem Begins.passes (h : app.Begins request service n p) : service.Passes p.service n n := by
  induction h with
  | first => exact .refl service
  | next _ hpass ih =>
    obtain ⟨-, work, -, rfl⟩ := pass_eq_again_iff.mp hpass
    exact ih.trans ((passes_ended app _).trans (Passage.passes_runWork _ work))

/-- **All passes of a request**: one more than the work that was run. -/
theorem Begins.passes_of_final (h : app.Begins request service n p) {crash : Option String}
    (hpass : app.pass p = .final q crash) : service.Passes q.service (n + 1) n := by
  have hended : service.Passes (app.ended p).1.service (n + 1) n :=
    h.passes.trans (passes_ended app p)
  rcases pass_eq_final_iff.mp hpass with ⟨message, -, rfl, -⟩ | ⟨e, -, rfl, -⟩ | ⟨-, -, rfl, -⟩
  · exact hended
  · exact hended.trans (Passage.passes_answerError _ e)
  · exact hended

end App

end TimedHttp
