import TimedHttp.Proofs.Dealings
import TimedHttp.Proofs.DeferredFailures

/-!
# Wrapped errors

Middlewares may wrap an error on its way out, any number of times. The status, the text and the
sources of a chain error go down to the handler error inside, whereas the outcome of an exchange
names the cause under one wrapping only. So of the wrappings inside a timing layer the second one
shows in what is measured, and no wrapping shows in the response.

## Main definitions

* `Chain.Through` — a pass goes through middlewares that at most wrap an error

## Main statements

* `ChainError.sources_wrap`, `ChainError.text_wrap`, `ChainError.className_unwrap_wrap` — an error
  under any number of wrappings
* `Chain.Through.hands_on` — what leaves those middlewares
* `App.wrapped_error_measured` — an error of the handler that is wrapped inside a timing layer and
  outside of it
-/

namespace TimedHttp

variable {σ : Type}

/-! ## An error under wrappings -/

namespace ChainError

/-- Each source has one wrapping less, and the last one has none. -/
theorem sources_wrap (e : HandlerError) (n : Nat) :
    ((handler e).wrap n).sources = (List.range n).reverse.map (handler e).wrap := by
  induction n with
  | zero => rfl
  | succ n ih =>
    rw [List.range_succ, List.reverse_append, List.map_append, ← ih]
    rfl

theorem text_wrap (e : ChainError) (n : Nat) :
    (e.wrap n).text =
      String.join (List.replicate n "request processing failed: ") ++ e.text := by
  induction n with
  | zero => exact String.empty_append.symm
  | succ n ih =>
    rw [List.replicate_succ, String.join_cons, String.append_assoc, ← ih]
    rfl

/-- **Only one wrapping is looked through.** -/
theorem className_unwrap_wrap (e : HandlerError) (n : Nat) :
    ((handler e).wrap n).unwrap.className =
      if n ≤ 1 then e.className else "NestedChainError" := by
  match n with
  | 0 => rfl
  | 1 => rfl
  | n + 2 => rfl

end ChainError

/-- The ending with its error, if it has one, under so many wrappings more. -/
def Ending.wrap : Ending → Nat → Ending
  | .returned (.error e), n => .returned (.error (e.wrap n))
  | ending, _ => ending

theorem Ending.wrap_wrap (ending : Ending) (n k : Nat) :
    (ending.wrap n).wrap k = ending.wrap (n + k) := by
  match ending with
  | .returned (.error e) => exact congrArg (Ending.returned ∘ Except.error) (e.wrap_wrap n k)
  | .returned (.ok ()) => rfl
  | .crashed _ => rfl

/-! ## Through middlewares -/

namespace Chain

/-- **Through middlewares that wrap**: from some stages of a pass, with the passage in which they
begin, it goes on to some inner ones, with theirs. Each middleware in between edits nothing, calls
its inner stages, and hands on what they end in, with an error under so many wrappings more; in all
they wrap it so many times. -/
inductive Through :
    Nat → List (Layer σ) → Passage σ → Nat → List (Layer σ) → Passage σ → Nat → Prop
  | here {position : Nat} {layers : List (Layer σ)} {p : Passage σ} :
      Through position layers p position layers p 0
  | middleware {position i n k : Nat} {middleware : Middleware σ} {rest layers : List (Layer σ)}
      {p q r : Passage σ} {after : Sight σ → Ending → Turn σ Ending} {ending : Ending} :
      (middleware p.sight).edits = [] → (middleware p.sight).next = .proceed after →
      run (position + 1) rest (firstTurn position middleware p) = (r, ending) →
      (after r.sight ending).edits = [] → (after r.sight ending).next = ending.wrap k →
      Through (position + 1) rest (firstTurn position middleware p) i layers q n →
      Through position (.custom middleware :: rest) p i layers q (n + k)

/-- The entry concerns no measurement. -/
def IsStageEntry (e : Entry) : Prop :=
  (∃ i, e = .layerEntered i) ∨ (∃ i ending, e = .layerLeft i ending) ∨ IsEndEntry e

/-- **What leaves the middlewares** is what left the inner stages, wrapped. The exchange is none of
their business, on the way in and on the way out, nor are the measurements. -/
theorem Through.hands_on {position i n : Nat} {layers inner : List (Layer σ)} {p q : Passage σ}
    (h : Through position layers p i inner q n) :
    (run position layers p).2 = (run i inner q).2.wrap n ∧
      q.exchange = p.exchange ∧ p.service.Quiet IsStageEntry q.service ∧
      (run position layers p).1.exchange = (run i inner q).1.exchange ∧
      (run i inner q).1.service.Quiet IsStageEntry (run position layers p).1.service := by
  induction h with
  | @here position layers p =>
    refine ⟨?_, rfl, .refl _, rfl, .refl _⟩
    match (Chain.run position layers p).2 with
    | .returned (.error e) => rfl
    | .returned (.ok ()) => rfl
    | .crashed _ => rfl
  | @middleware position i n k middleware rest layers p q r after ending hedits hnext hrun hedits'
      hnext' _ ih =>
    rw [hrun] at ih
    obtain ⟨hending, hin, hquiet, hout, hquiet'⟩ := ih
    rw [run_proceed hnext, hrun]
    refine ⟨?_, hin.trans (Passage.exchange_take hedits _), ?_, ?_, ?_⟩
    · have hinner : ending = (run i layers q).2.wrap n := hending
      show (after r.sight ending).next = _
      rw [hnext', hinner, Ending.wrap_wrap]
    · exact (quiet_firstTurn position middleware p (.inl ⟨position, rfl⟩)).trans hquiet
    · exact (Passage.exchange_take hedits' r).trans hout
    · exact hquiet'.trans ((Passage.quiet_take r _).trans (.note _ (.inr (.inl ⟨_, _, rfl⟩))))

/-- Down to the end of the chain, there are middlewares alone. -/
theorem Through.isTiming {position i n : Nat} {layers inner : List (Layer σ)} {p q : Passage σ}
    (h : Through position layers p i inner q n) (hinner : inner = []) :
    ∀ layer ∈ layers, layer.isTiming = false := by
  induction h with
  | here =>
    rw [hinner]
    exact List.forall_mem_nil _
  | middleware _ _ _ _ _ _ ih => exact List.forall_mem_cons.mpr ⟨rfl, ih hinner⟩

theorem IsStageEntry.not_isClosing {e : Entry} (h : IsStageEntry e) : ¬ e.IsClosing := by
  obtain ⟨i, rfl⟩ | ⟨i, ending, rfl⟩ | rfl | rfl := h <;> exact id

/-! ## The timing layer in between -/

theorem entered_measured (i : Nat) (layer : TimingLayer σ) {p : Passage σ}
    (h : p.exchange.measurement = none) :
    (entered i layer p).Measured layer p.service (.ofRequest p.exchange.request) ∧
      (entered i layer p).service.early p.service.measurements.length =
        p.service.startResult layer.registry (.ofRequest p.exchange.request) := by
  obtain ⟨registries, events, -, -, heq⟩ := entered_of_none i layer h
  rw [heq]
  exact ⟨⟨rfl, p.service.now, rfl⟩, EarlyResults.start_self ..⟩

/-- **An error that is raised at the end** leaves a timing layer as it reached it, with the
wrappings of the stages inside. The layer closes the measurement that it has started, and names the
cause under one wrapping, unless the response side was settled before; that takes a registry that
does so when the sample starts, or a stage inside. -/
theorem Through.timing {i j n : Nat} {layer : TimingLayer σ} {inside : List (Layer σ)}
    {p q : Passage σ} {e : HandlerError} (h : Through (i + 1) inside (entered i layer p) j [] q n)
    (hnone : p.exchange.measurement = none)
    (hraised : (endpoint q).2 = .returned (.error (.handler e))) :
    let outer := run i (.timing layer :: inside) p
    let error := (ChainError.handler e).wrap n
    let outcome := Outcome.unhandledError error.unwrap.className
    let x := (endpoint q).1.exchange.failStatus
    outer.2 = .returned (.error error) ∧ outer.1.exchange = x ∧
      ∃ before closed early, (∀ e ∈ before, ¬ e.IsClosing) ∧
        ClosedWith layer.registry outcome (layer.tags x x.route outcome)
          { Attribution.ofRequest p.exchange.request with
            result := some (early.getD { status := x.status, error := outcome.errorClass }) }
          closed ∧
        (∀ result, early = some result →
          p.service.startResult layer.registry (.ofRequest p.exchange.request) = some result ∨
            ∃ layer ∈ inside, layer.Settles p.service.measurements.length result) ∧
        outer.1.service.journal = p.service.journal ++ before ++ closed ++
          [.layerLeft i (.returned (.error error))] := by
  intro outer error outcome x
  obtain ⟨hending, hin, hquiet, hout, hquiet'⟩ := h.hands_on
  obtain ⟨hmeasured, hstarted⟩ := entered_measured i layer hnone
  obtain ⟨before, hbefore, hentered⟩ := adds_entered_open i layer p
  have hinner : (run (i + 1) inside (entered i layer p)).2 = .returned (.error error) := by
    rw [hending]
    exact congrArg (Ending.wrap · n) hraised
  -- between the two ends of the measurement, only stages write to the journal
  have hwithin : (entered i layer p).service.Quiet IsStageEntry
      (run (i + 1) inside (entered i layer p)).1.service :=
    hquiet.trans (((quiet_endpoint q).mono fun _ he => .inr (.inr he)).trans hquiet')
  have hkept : (run (i + 1) inside (entered i layer p)).1.Measured layer p.service
      (.ofRequest p.exchange.request) :=
    hmeasured.congr hwithin.measurements
      ((run_keeps (i + 1) inside (entered i layer p)).1 _ hmeasured.1)
  have hx : (run (i + 1) inside (entered i layer p)).1.exchange.failStatus = x := by
    rw [hout]
    rfl
  obtain ⟨-, closed, hjournal, hclosed⟩ := hkept.close x (some (.ofError error))
  rw [Service.settle_attributed _ _ rfl] at hclosed
  have houter : outer = ((layer.leave p.service.measurements.length
      (run (i + 1) inside (entered i layer p)).1 (.returned (.error error))).note
        (.layerLeft i (.returned (.error error))), .returned (.error error)) := by
    rw [← measured_of_none i layer hnone, ← hinner]
    exact run_timing i layer inside p
  obtain ⟨state, early, within, -, hstages, hservice⟩ := hwithin
  have hadded : (run (i + 1) inside (entered i layer p)).1.service.journal =
      p.service.journal ++ (before ++ within) := by
    rw [hservice, ← List.append_assoc, ← hentered]
  refine ⟨congrArg Prod.snd houter, ?_, before ++ within, closed, _, ?_, hclosed, ?_, ?_⟩
  · rw [houter]
    exact hx
  · exact fun e he => (List.mem_append.mp he).elim (hbefore e) fun he =>
      (hstages e he).not_isClosing
  · intro result hresult
    rw [← hstarted]
    exact settled_of_run (i + 1) inside (entered i layer p) (h.isTiming rfl) hresult
  · rw [houter, ← hadded, ← hjournal, ← hx]
    rfl

end Chain

/-! ## The whole way of an error -/

/-- The entry tells neither an outcome nor that something was recorded. -/
def Entry.IsSilent (e : Entry) : Prop :=
  e.resolved? = none ∧
    ∀ registry timer elapsed a verdict, e ≠ .recorded registry timer elapsed a verdict

theorem Entry.isSilent_of_not_isClosing {e : Entry} (h : ¬ e.IsClosing) : e.IsSilent := by
  refine ⟨resolved?_of_not_isClosing h, ?_⟩
  rintro registry timer elapsed a verdict rfl
  exact h trivial

theorem Passage.isSilent_of_mem_aftermath {p : Passage σ} {e : ChainError} {entry : Entry}
    (h : entry ∈ p.aftermath e) : entry.IsSilent := by
  obtain ⟨event, rfl⟩ | ⟨registry, rfl⟩ := eq_of_mem_aftermath h <;>
    exact ⟨rfl, fun _ _ _ _ _ => nofun⟩

/-- Silent entries may stand around the end of a measurement. -/
theorem ClosedWith.among {registry : Nat} {outcome : Outcome} {tags : Except String Tags}
    {a : Attribution} {entries xs ys : List Entry}
    (h : ClosedWith registry outcome tags a entries) (hxs : ∀ e ∈ xs, e.IsSilent)
    (hys : ∀ e ∈ ys, e.IsSilent) :
    (xs ++ entries ++ ys).filterMap Entry.resolved? = [(outcome, tags)] ∧
      ∀ registry' timer elapsed b verdict,
        .recorded registry' timer elapsed b verdict ∈ xs ++ entries ++ ys →
          registry' = registry ∧ b = a := by
  have hnone : ∀ {zs : List Entry}, (∀ e ∈ zs, e.IsSilent) →
      zs.filterMap Entry.resolved? = [] := fun hzs =>
    List.filterMap_eq_nil_iff.mpr fun e he => (hzs e he).1
  constructor
  · rw [List.filterMap_append, List.filterMap_append, hnone hxs, hnone hys, h.resolved]
    rfl
  · intro registry' timer elapsed b verdict hmem
    rw [List.mem_append, List.mem_append] at hmem
    obtain (hmem | hmem) | hmem := hmem
    · exact absurd rfl ((hxs _ hmem).2 _ _ _ _ _)
    · exact h.recorded _ _ _ _ _ hmem
    · exact absurd rfl ((hys _ hmem).2 _ _ _ _ _)

namespace App

variable {app : App σ} {request : Request} {service : Service σ}

/-- The exchange of a request with work, which nobody has touched. -/
theorem begin_of_work {w : Work σ} (h : app.work? request = some w) :
    (app.begin request).due? = some w.reply ∧ (app.begin request).measurement = none ∧
      (app.begin request).response = .bare .ok := by
  obtain ⟨found, hfound, rfl⟩ := Option.map_eq_some_iff.mp h
  have hx : app.begin request = .fresh { request with params := found.2 } (some found.1) := by
    simp only [App.begin, hfound]
  rw [hx]
  exact ⟨rfl, rfl, rfl⟩

section Wrapped

variable {w : Work σ} {e : HandlerError} {layer : TimingLayer σ} {inside : List (Layer σ)}
  {p q : Passage σ} {i j n m : Nat}

/-- The handler raises its error at the end of the pass, over a response that nobody has touched. -/
theorem raised_at_end (hwork : app.work? request = some w)
    (hraised : w.reply = .ok (.ready (.error e)))
    (houtside : Chain.Through 0 app.layers (opened (app.start request service)) i
      (.timing layer :: inside) p m)
    (hinside : Chain.Through (i + 1) inside (Chain.entered i layer p) j [] q n) :
    p.exchange.measurement = none ∧ (Chain.endpoint q).2 = .returned (.error (.handler e)) ∧
      (Chain.endpoint q).1.exchange.failStatus.status = e.raisedStatus := by
  obtain ⟨hdue, hnone, hresponse⟩ := begin_of_work hwork
  obtain ⟨-, hin, -⟩ := houtside.hands_on
  obtain ⟨-, hq, -⟩ := hinside.hands_on
  have hx : q.exchange =
      { app.begin request with measurement := some (Chain.measured i layer p) } := by
    rw [hq, (Chain.entered_leaves i layer p).1, hin]
    rfl
  have hend : Chain.endpoint q = Chain.applyReply q.atEnd (.ready (.error e)) := by
    have hreply : q.exchange.due? = some (.ok (.ready (.error e))) := by
      rw [← hraised, ← hdue, hx]
      rfl
    rw [Chain.endpoint_eq, hreply]
  have hfresh : q.atEnd.exchange.response = .bare .ok := by
    rw [Passage.response_atEnd, hx]
    exact hresponse
  rw [hend]
  exact ⟨(congrArg Exchange.measurement hin).trans hnone, rfl,
    (Chain.HandedOn.refl _).raisedStatus hfresh⟩

/-- **An error that escapes** leaves the timing layer and the chain under the wrappings that were
put around it so far. The measurement is closed once, in the timing layer. -/
theorem wrapped_error_escapes (hwork : app.work? request = some w)
    (hraised : w.reply = .ok (.ready (.error e)))
    (houtside : Chain.Through 0 app.layers (opened (app.start request service)) i
      (.timing layer :: inside) p m)
    (hinside : Chain.Through (i + 1) inside (Chain.entered i layer p) j [] q n) :
    let error := ChainError.handler e
    let x := (Chain.endpoint q).1.exchange.failStatus
    let outcome := Outcome.unhandledError (error.wrap n).unwrap.className
    (Chain.run i (.timing layer :: inside) p).2 = .returned (.error (error.wrap n)) ∧
      (app.ended (app.start request service)).2 = .returned (.error (error.wrap (n + m))) ∧
      (∃ before closed early after, (∀ e ∈ before, e.IsSilent) ∧ (∀ e ∈ after, e.IsSilent) ∧
        ClosedWith layer.registry outcome (layer.tags x x.route outcome)
          { Attribution.ofRequest p.exchange.request with
            result := some (early.getD { status := x.status, error := outcome.errorClass }) }
          closed ∧
        (∀ result, early = some result →
          service.startResult layer.registry (.ofRequest request) = some result ∨
            ∃ layer ∈ inside, layer.Settles service.measurements.length result) ∧
        (app.handle request service).1.journal =
          service.journal ++ (before ++ closed ++ after)) ∧
      (app.handle request service).2 = .ok (.bare e.raisedStatus) := by
  intro error x outcome
  obtain ⟨hnone, hend, hstatus⟩ := raised_at_end hwork hraised houtside hinside
  obtain ⟨hending, hin, ⟨_, _, entering, -, hentering, hentered⟩, hout,
    ⟨_, _, leaving, -, hleaving, hleft⟩⟩ := houtside.hands_on
  obtain ⟨hlayer, hx, before, closed, early, hbefore, hclosed, hearly, hjournal⟩ :=
    hinside.timing hnone hend
  have hescapes : (app.ended (app.start request service)).2 =
      .returned (.error (error.wrap (n + m))) := by
    rw [← ChainError.wrap_wrap]
    exact hending.trans (congrArg (Ending.wrap · m) hlayer)
  have hstages : ∀ {entries : List Entry}, (∀ e ∈ entries, Chain.IsStageEntry e) →
      ∀ e ∈ entries, e.IsSilent := fun h e he =>
    Entry.isSilent_of_not_isClosing (h e he).not_isClosing
  obtain ⟨-, -, last, -, hhandle, -, -, -, hanswered, -⟩ := error_ends_request .first hescapes
  rw [hhandle]
  refine ⟨hlayer, hescapes, ?_, ?_⟩
  · refine ⟨.passBegan (app.begin request).kind :: (entering ++ before), closed, early,
      .layerLeft i (.returned (.error (error.wrap n))) :: (leaving ++
        .passEnded (.returned (.error (error.wrap (n + m)))) ::
          (app.ended (app.start request service)).1.aftermath (error.wrap (n + m))), ?_, ?_,
      hclosed, ?_, ?_⟩
    · rw [List.forall_mem_cons, List.forall_mem_append]
      exact ⟨⟨rfl, fun _ _ _ _ _ => nofun⟩, hstages hentering,
        fun e he => Entry.isSilent_of_not_isClosing (hbefore e he)⟩
    · rw [List.forall_mem_cons, List.forall_mem_append, List.forall_mem_cons]
      exact ⟨⟨rfl, fun _ _ _ _ _ => nofun⟩, hstages hleaving, ⟨rfl, fun _ _ _ _ _ => nofun⟩,
        fun e he => Passage.isSilent_of_mem_aftermath he⟩
    · intro result hresult
      obtain ⟨params, route, hfresh⟩ := app.begin_fresh request
      have hrequest : Attribution.ofRequest p.exchange.request = .ofRequest request := by
        rw [hin, show (opened (app.start request service)).exchange = _ from hfresh]
        rfl
      have hregistries : p.service.registries = service.registries := by
        rw [hentered]
        rfl
      have hmeasurements : p.service.measurements = service.measurements := by
        rw [hentered]
        rfl
      have hsettled := hearly result hresult
      rw [hrequest, hmeasurements, Service.startResult, hregistries] at hsettled
      exact hsettled
    · rw [hanswered]
      have hended : (app.ended (app.start request service)).1.service.journal =
          (Chain.run 0 app.layers (opened (app.start request service))).1.service.journal ++
            [.passEnded (app.ended (app.start request service)).2] := rfl
      rw [hended, hescapes, hleft]
      simp only [hjournal, hentered]
      simp [opened, Passage.note, Service.note, start, error]
  · have hanswer : (app.ended (app.start request service)).1.exchange.status.orServerError =
        e.raisedStatus := by
      have hexchange : (app.ended (app.start request service)).1.exchange = x := hout.trans hx
      rw [hexchange]
      exact (Status.orServerError_orServerError _).trans hstatus
    rw [← hanswer]
    rfl

end Wrapped

/-- **Wrapping.** Let the handler raise an error at once, which middlewares wrap `n` times inside a
timing layer and `m` times outside of it, all of them handing on what they get. The error leaves the
timing layer under `n` wrappings and the chain under all `n + m`. At every depth its status is that
of the handler error; its sources are the errors under each wrapping, down to that of the handler;
its text is that of the handler error behind one preamble for each wrapping. The class that is
measured, as the outcome of the exchange, is that of the handler error if it is wrapped once at most
inside of the layer; and so is the class in all that is recorded, unless the registry settled the
response side at the start, or a stage inside did. The response depends on the handler error
alone. -/
theorem wrapped_error_measured {w : Work σ} {e : HandlerError} {layer : TimingLayer σ}
    {inside : List (Layer σ)} {p q : Passage σ} {i j n m : Nat}
    (hwork : app.work? request = some w) (hraised : w.reply = .ok (.ready (.error e)))
    (houtside : Chain.Through 0 app.layers (opened (app.start request service)) i
      (.timing layer :: inside) p m)
    (hinside : Chain.Through (i + 1) inside (Chain.entered i layer p) j [] q n) :
    let error := ChainError.handler e
    let className := if n ≤ 1 then e.className else "NestedChainError"
    (Chain.run i (.timing layer :: inside) p).2 = .returned (.error (error.wrap n)) ∧
    (app.ended (app.start request service)).2 = .returned (.error (error.wrap (n + m))) ∧
    ((∀ depth, (error.wrap depth).status = e.status) ∧
      (error.wrap (n + m)).sources = (List.range (n + m)).reverse.map error.wrap ∧
      (error.wrap (n + m)).sources.length = n + m ∧
      (0 < n + m → (error.wrap (n + m)).sources.getLast? = some error) ∧
      (error.wrap (n + m)).text =
        String.join (List.replicate (n + m) "request processing failed: ") ++ e.text) ∧
    (∃ entries tags early,
      (app.handle request service).1.journal = service.journal ++ entries ∧
      entries.filterMap Entry.resolved? = [(.unhandledError className, tags)] ∧
      (∀ registry timer elapsed a verdict, .recorded registry timer elapsed a verdict ∈ entries →
        registry = layer.registry ∧
          a.result = some (early.getD { status := e.raisedStatus, error := some className })) ∧
      (∀ result, early = some result →
        service.startResult layer.registry (.ofRequest request) = some result ∨
          ∃ layer ∈ inside, layer.Settles service.measurements.length result) ∧
      ∀ ignoreFinalSlash, layer.tags = StandardTags.provider ignoreFinalSlash →
        ∃ resolved, tags = .ok resolved ∧ resolved.get? "exception" = some className) ∧
    (app.handle request service).2 =
      .ok { status := e.raisedStatus, header := [], body := [] } := by
  intro error className
  obtain ⟨hlayer, hescapes,
    ⟨before, closed, early, after, hbefore, hafter, hclosed, hearly, hjournal⟩, hanswer⟩ :=
    wrapped_error_escapes hwork hraised houtside hinside
  obtain ⟨-, -, hstatus⟩ := raised_at_end hwork hraised houtside hinside
  have hclass : (error.wrap n).unwrap.className = className :=
    ChainError.className_unwrap_wrap e n
  have hsources := ChainError.sources_wrap e (n + m)
  rw [hclass, hstatus] at hclosed
  obtain ⟨hresolved, hrecorded⟩ := hclosed.among hbefore hafter
  refine ⟨hlayer, hescapes, ⟨ChainError.status_wrap error, hsources, ?_, ?_,
    ChainError.text_wrap error (n + m)⟩, ⟨_, _, _, hjournal, hresolved, ?_, hearly, ?_⟩, hanswer⟩
  · rw [hsources, List.length_map, List.length_reverse, List.length_range]
  · intro hpos
    obtain ⟨k, hk⟩ := Nat.exists_eq_succ_of_ne_zero (Nat.ne_of_gt hpos)
    rw [hsources, hk, List.range_succ_eq_map, List.reverse_cons, List.map_append]
    exact List.getLast?_concat
  · intro registry timer elapsed a verdict hmem
    obtain ⟨hregistry, rfl⟩ := hrecorded _ _ _ _ _ hmem
    exact ⟨hregistry, rfl⟩
  · intro ignoreFinalSlash hprovider
    rw [hprovider]
    exact ⟨_, rfl, StandardTags.get?_exception ..⟩

end App

/-! ## Wrapped twice inside, and once outside -/

/-- The middleware that wraps every error once does so in whatever chain it stands. -/
theorem Chain.Through.wrapping {position i n : Nat} {rest layers : List (Layer σ)}
    {p q : Passage σ}
    (h : Through (position + 1) rest (firstTurn position .wrapping p) i layers q n) :
    Through position (.custom .wrapping :: rest) p i layers q (n + 1) := by
  refine .middleware rfl rfl rfl rfl ?_ h
  match (run (position + 1) rest (firstTurn position .wrapping p)).2 with
  | .returned (.error e) => rfl
  | .returned (.ok ()) => rfl
  | .crashed _ => rfl

namespace Exports

/-- An error of the handler passes two middlewares that wrap it, a timing layer, and another one. -/
def rewrapped : App Unit :=
  working (.fail conflict)
    [.custom .wrapping, .timing { registry := 0 }, .custom .wrapping, .custom .wrapping]

/-- The class that is measured is that of a wrapped error, and the response has the status of the
error inside. -/
theorem rewrapped_measured :
    (rewrapped.ended (rewrapped.start request crashing)).2 =
        .returned (.error ((ChainError.handler conflict).wrap 3)) ∧
      (∃ entries tags, (rewrapped.handle request crashing).1.journal =
          crashing.journal ++ entries ∧
        entries.filterMap Entry.resolved? = [(.unhandledError "NestedChainError", tags)]) ∧
      (rewrapped.handle request crashing).2 = .ok (.bare { code := 409 }) := by
  have hwork : rewrapped.work? request = some (.fail conflict) := rfl
  have houtside : Chain.Through 0 rewrapped.layers
      (App.opened (rewrapped.start request crashing)) 1
      [.timing { registry := 0 }, .custom .wrapping, .custom .wrapping] _ 1 := .wrapping .here
  have hinside : ∀ p : Passage Unit,
      Chain.Through 2 [.custom .wrapping, .custom .wrapping] p 4 [] _ 2 :=
    fun p => .wrapping (.wrapping .here)
  obtain ⟨-, hescapes, -, ⟨entries, tags, early, hjournal, hresolved, -⟩, hanswer⟩ :=
    App.wrapped_error_measured hwork rfl houtside (hinside _)
  exact ⟨hescapes, ⟨entries, tags, hjournal, hresolved⟩, hanswer⟩

end Exports

end TimedHttp
