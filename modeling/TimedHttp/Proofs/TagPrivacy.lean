import TimedHttp.Proofs.Dealings
import TimedHttp.Proofs.Reference

/-!
# Tags tell nothing of a request but its method and route

The standard tags of two exchanges are the same if both have the same method, route, status and
outcome. So the number of timers is bounded by the routes, whatever paths, parameters, fields and
bodies requests have. Over all passes: two requests of one method that match the same route, and
whose handlers reply alike, go through the same states but for the data of the request, and are
recorded under the same keys.

## Main definitions

* `StandardTags.IsPlace` — the values of the tag that tells where an exchange went
* `Work.replies` — work as a tree of replies
* `Exchange.Alike` — two exchanges that differ in the data of their requests only
* `Service.keysGained` — the keys under which measurements were handed to a registry

## Main statements

* `StandardTags.tags_congr` — what standard tags depend on
* `App.ended_alike`, `App.Begins.alike` — a pass, and all passes, of two exchanges that are alike
* `App.tags_carry_no_request_data` — tags and recorded keys of any two requests
-/

namespace TimedHttp

variable {σ : Type}

/-! ## What tags depend on -/

/-- The path of the request is the root. -/
def Request.IsRoot (r : Request) : Prop := r.path = "" ∨ r.path = "/"

namespace StandardTags

variable {ignoreFinalSlash : Bool} {x y : Exchange σ} {route : Option (Route σ)} {outcome : Outcome}

/-- The keys of the standard tags. -/
def keys : List String := ["method", "uri", "status", "family", "outcome", "exception", "handler"]

theorem isSome_get?_iff {key : String} :
    ((tags ignoreFinalSlash x route outcome).get? key).isSome ↔ key ∈ keys :=
  SortedMap.isSome_get?_ofList_iff

theorem get?_uri :
    (tags ignoreFinalSlash x route outcome).get? "uri" = some (uri ignoreFinalSlash x route) := by
  simp [tags, SortedMap.get?_ofList, SortedMap.lastWritten]

/-- **Where an exchange may have gone**, as its tags tell: to its route, by the pattern with or
without its final slash, or else to one of four fixed places. -/
def IsPlace (place : String) : Option (Route σ) → Prop
  | some route => place = route.pattern ∨ place ++ "/" = route.pattern ∨ place = "root"
  | none => place ∈ ["REDIRECTION", "NOT_FOUND", "root", "UNKNOWN"]

theorem withoutFinalSlash_cases (text : String) :
    withoutFinalSlash text = text ∨ withoutFinalSlash text ++ "/" = text := by
  rw [withoutFinalSlash]
  split
  next h =>
    obtain ⟨front, hfront⟩ := List.getLast?_eq_some_iff.mp h.2
    refine .inr (String.toList_inj.mp ?_)
    rw [String.toList_append, String.toList_ofList, hfront, List.dropLast_concat]
    rfl
  next => exact .inl rfl

theorem isPlace_uri : IsPlace (uri ignoreFinalSlash x route) route := by
  cases route with
  | some route =>
    have hpattern : ∀ place : String, place = route.pattern ∨ place ++ "/" = route.pattern →
        IsPlace (if place = "" then "root" else place) (some route) := by
      intro place hplace
      split
      next => exact .inr (.inr rfl)
      next => exact hplace.imp id .inl
    refine hpattern _ ?_
    cases ignoreFinalSlash with
    | false => exact .inl rfl
    | true => exact withoutFinalSlash_cases route.pattern
  | none =>
    simp only [uri, unroutedUri, IsPlace]
    split
    next => simp
    next =>
      split
      next => simp
      next => split <;> simp

/-- **What standard tags depend on**: the method, the route, the status and the outcome, and without
a route whether the path is the root. -/
theorem tags_congr (hmethod : x.request.method = y.request.method) (hstatus : x.status = y.status)
    (hroot : route = none → (x.request.IsRoot ↔ y.request.IsRoot)) :
    tags ignoreFinalSlash x route outcome = tags ignoreFinalSlash y route outcome := by
  have huri : uri ignoreFinalSlash x route = uri ignoreFinalSlash y route := by
    cases route with
    | some route => rfl
    | none =>
      have hroot : x.request.path = "" ∨ x.request.path = "/" ↔
          y.request.path = "" ∨ y.request.path = "/" := hroot rfl
      simp only [uri, unroutedUri, hstatus, hroot]
  rw [tags, tags, hmethod, hstatus, huri]

end StandardTags

/-! ## Exchanges that are alike -/

/-- **Work as a tree of replies**, without what it does to the state of the application. -/
def Work.replies : Work σ → Work σ
  | touch _ rest => rest.replies
  | answer response => .answer response
  | fail error => .fail error
  | defer later => .defer later.replies
  | crash message => .crash message

def Reply.replies : Reply σ → Reply σ
  | ready result => .ready result
  | deferred later => .deferred later.replies

theorem Work.reply_replies (w : Work σ) : w.replies.reply = w.reply.map Reply.replies := by
  induction w with
  | touch change rest ih => exact ih
  | answer | fail | defer | crash => rfl

/-- **Alike**: two exchanges on one route, whose requests have one method and get the same replies,
are in the same state, but for the data of their requests and for what work does to the state of the
application. -/
structure Exchange.Alike (route : Route σ) (x y : Exchange σ) : Prop where
  method : x.request.method = y.request.method
  routed : x.route = some route ∧ y.route = some route
  work : (route.handler x.request).replies = (route.handler y.request).replies
  response : x.response = y.response
  kind : x.kind = y.kind
  pending : x.pending.map Work.replies = y.pending.map Work.replies
  reply : x.reply.map Reply.replies = y.reply.map Reply.replies
  error : x.error = y.error

namespace Exchange.Alike

variable {route : Route σ} {x y : Exchange σ}

theorem symm (h : x.Alike route y) : y.Alike route x :=
  ⟨h.method.symm, h.routed.symm, h.work.symm, h.response.symm, h.kind.symm, h.pending.symm,
    h.reply.symm, h.error.symm⟩

theorem status (h : x.Alike route y) : x.status = y.status := congrArg Response.status h.response

/-- The measurements of the exchanges make no difference. -/
theorem measurement (h : x.Alike route y) (m n : Option Nat) :
    Exchange.Alike route { x with measurement := m } { y with measurement := n } :=
  ⟨h.method, h.routed, h.work, h.response, h.kind, h.pending, h.reply, h.error⟩

theorem setResponse (h : x.Alike route y) (response : Response) :
    (x.setResponse response).Alike route (y.setResponse response) :=
  ⟨h.method, h.routed, h.work, rfl, h.kind, h.pending, h.reply, h.error⟩

theorem setStatus (h : x.Alike route y) (status : Status) :
    (x.setStatus status).Alike route (y.setStatus status) := by
  rw [Exchange.setStatus, Exchange.setStatus, h.response]
  exact h.setResponse { y.response with status }

theorem failStatus (h : x.Alike route y) : x.failStatus.Alike route y.failStatus := by
  rw [Exchange.failStatus, Exchange.failStatus, h.status]
  exact h.setStatus y.status.orServerError

/-- The same is due at the end of the chain. -/
theorem due (h : x.Alike route y) :
    x.due?.map (Except.map Reply.replies) = y.due?.map (Except.map Reply.replies) := by
  simp only [due?, ← h.kind, h.routed.1, h.routed.2]
  cases x.kind with
  | request =>
    simp only [Option.map_some]
    rw [← Work.reply_replies, h.work, Work.reply_replies]
  | resumed =>
    have hreply : ∀ reply : Option (Reply σ),
        (reply.map (Except.ok : Reply σ → Except String (Reply σ))).map
          (Except.map Reply.replies) = (reply.map Reply.replies).map Except.ok := by
      intro reply
      cases reply <;> rfl
    exact (hreply x.reply).trans ((congrArg _ h.reply).trans (hreply y.reply).symm)

end Exchange.Alike

/-! ## Over a pass -/

namespace Chain

variable {route : Route σ} {p q : Passage σ}

theorem applyReply_alike (h : p.exchange.Alike route q.exchange) {reply reply' : Reply σ}
    (hreply : reply.replies = reply'.replies) :
    (applyReply p reply).2 = (applyReply q reply').2 ∧
      (applyReply p reply).1.exchange.Alike route (applyReply q reply').1.exchange := by
  match reply, reply' with
  | .ready (.ok response), .ready (.ok response') =>
    cases hreply
    exact ⟨rfl, h.setResponse response⟩
  | .ready (.error e), .ready (.error e') =>
    cases hreply
    refine ⟨rfl, ?_⟩
    cases hs : e.status with
    | none => simpa [applyReply, hs] using h
    | some status => simpa [applyReply, hs] using h.setStatus status
  | .deferred later, .deferred later' =>
    refine ⟨rfl, h.method, h.routed, h.work, h.response, h.kind, ?_, h.reply, h.error⟩
    exact congrArg some (Reply.deferred.inj hreply)
  | .ready (.ok _), .ready (.error _) | .ready (.error _), .ready (.ok _) => cases hreply
  | .ready _, .deferred _ | .deferred _, .ready _ => cases hreply

theorem exchange_atEnd (p : Passage σ) :
    p.atEnd.exchange =
      match p.exchange.kind with
      | .request => p.exchange
      | .resumed => { p.exchange with reply := none } := by
  obtain ⟨service, request, route, response, kind, pending, reply, error, measurement⟩ := p
  cases kind with
  | request => cases route <;> rfl
  | resumed => rfl

theorem atEnd_alike (h : p.exchange.Alike route q.exchange) :
    p.atEnd.exchange.Alike route q.atEnd.exchange := by
  rw [exchange_atEnd, exchange_atEnd, ← h.kind]
  split
  next => exact h
  next => exact ⟨h.method, h.routed, h.work, h.response, h.kind, h.pending, rfl, h.error⟩

theorem endpoint_alike (h : p.exchange.Alike route q.exchange) :
    (endpoint p).2 = (endpoint q).2 ∧
      (endpoint p).1.exchange.Alike route (endpoint q).1.exchange := by
  have hdue := h.due
  rw [endpoint_eq, endpoint_eq]
  match hp : p.exchange.due?, hq : q.exchange.due? with
  | none, none => exact ⟨rfl, atEnd_alike h⟩
  | some (.error message), some (.error message') =>
    rw [hp, hq] at hdue
    cases hdue
    exact ⟨rfl, atEnd_alike h⟩
  | some (.ok reply), some (.ok reply') =>
    rw [hp, hq] at hdue
    exact applyReply_alike (atEnd_alike h) (Except.ok.inj (Option.some.inj hdue))
  | none, some _ | some _, none => simp [hp, hq] at hdue
  | some (.ok _), some (.error _) | some (.error _), some (.ok _) =>
    rw [hp, hq] at hdue
    cases hdue

end Chain

/-- **What deferred work leaves**, by its reply. -/
theorem Passage.exchange_runWork (p : Passage σ) (work : Work σ) :
    (p.runWork work).exchange =
      match work.reply with
      | .error _ => { p.exchange with
          pending := none, kind := .resumed, reply := none, error := some .crashed
          response := .bare HandlerError.crashed.deferredStatus }
      | .ok (.ready (.error e)) => { p.exchange with
          pending := none, kind := .resumed, reply := none, error := some e
          response := .bare e.deferredStatus }
      | .ok reply => { p.exchange with
          pending := none, kind := .resumed, reply := some reply } := by
  simp only [runWork, Work.run_snd]
  match work.reply with
  | .error _ | .ok (.ready (.error _)) | .ok (.ready (.ok _)) | .ok (.deferred _) => rfl

/-- Deferred work with the same replies leaves exchanges that are alike. -/
theorem Passage.runWork_alike {route : Route σ} {p q : Passage σ}
    (h : p.exchange.Alike route q.exchange) {work work' : Work σ}
    (hwork : work.replies = work'.replies) :
    (p.runWork work).exchange.Alike route (q.runWork work').exchange := by
  have hreply : work.reply.map Reply.replies = work'.reply.map Reply.replies := by
    rw [← Work.reply_replies, hwork, Work.reply_replies]
  rw [exchange_runWork, exchange_runWork]
  match hp : work.reply, hq : work'.reply with
  | .error _, .error _ => exact ⟨h.method, h.routed, h.work, rfl, rfl, rfl, rfl, rfl⟩
  | .ok (.ready (.error e)), .ok (.ready (.error e')) =>
    rw [hp, hq] at hreply
    cases hreply
    exact ⟨h.method, h.routed, h.work, rfl, rfl, rfl, rfl, rfl⟩
  | .ok (.ready (.ok response)), .ok (.ready (.ok response')) =>
    rw [hp, hq] at hreply
    cases hreply
    exact ⟨h.method, h.routed, h.work, h.response, rfl, rfl, rfl, h.error⟩
  | .ok (.deferred later), .ok (.deferred later') =>
    rw [hp, hq] at hreply
    have hlater := congrArg some (Except.ok.inj hreply)
    exact ⟨h.method, h.routed, h.work, h.response, rfl, rfl, hlater, h.error⟩
  | .error _, .ok _ | .ok _, .error _ =>
    rw [hp, hq] at hreply
    cases hreply
  | .ok (.ready (.ok _)), .ok (.ready (.error _)) | .ok (.ready (.error _)), .ok (.ready (.ok _)) =>
    rw [hp, hq] at hreply
    cases hreply
  | .ok (.ready _), .ok (.deferred _) | .ok (.deferred _), .ok (.ready _) =>
    rw [hp, hq] at hreply
    cases hreply

namespace App

variable {app : App σ} {layer : TimingLayer σ} {route : Route σ} {request request' : Request}
  {service service' : Service σ} {n : Nat} {p p' q : Passage σ}

/-- **A pass behind a timing layer alone** ends alike. -/
theorem ended_alike (happ : app.layers = [.timing layer])
    (h : p.exchange.Alike route q.exchange) :
    (app.ended p).2 = (app.ended q).2 ∧
      (app.ended p).1.exchange.Alike route (app.ended q).1.exchange := by
  have hentered : (Chain.entered 0 layer (opened p)).exchange.Alike route
      (Chain.entered 0 layer (opened q)).exchange := by
    rw [(Chain.entered_leaves 0 layer (opened p)).1, (Chain.entered_leaves 0 layer (opened q)).1]
    exact h.measurement _ _
  obtain ⟨hending, hexchange⟩ := Chain.endpoint_alike hentered
  rw [ended_of_timing happ, ended_of_timing happ]
  refine ⟨hending, ?_⟩
  have hleft : ∀ (p q : Passage σ) (ending ending' : Ending) (m n : Nat), ending = ending' →
      p.exchange.Alike route q.exchange →
      (layer.leave m p ending).exchange.Alike route (layer.leave n q ending').exchange := by
    rintro p q ending _ m n rfl halike
    rw [(layer.leave_leaves m p ending).1, (layer.leave_leaves n q ending).1]
    split
    next => exact halike.failStatus
    next => exact halike
  exact hleft _ _ _ _ _ _ hending hexchange

/-- **Another pass follows alike**, or none. -/
theorem again_alike (happ : app.layers = [.timing layer])
    (h : p.exchange.Alike route q.exchange) (hpass : app.pass p = .again p') :
    ∃ q', app.pass q = .again q' ∧ p'.exchange.Alike route q'.exchange := by
  obtain ⟨hending, hended⟩ := ended_alike happ h
  obtain ⟨hok, work, hwork, rfl⟩ := pass_eq_again_iff.mp hpass
  have hpending := hended.pending
  rw [hwork] at hpending
  obtain ⟨work', hwork', hreplies⟩ := Option.map_eq_some_iff.mp hpending.symm
  exact ⟨_, pass_eq_again_iff.mpr ⟨hending.symm.trans hok, work', hwork', rfl⟩,
    Passage.runWork_alike hended hreplies.symm⟩

/-- **All passes begin alike**, one after the other. -/
theorem Begins.alike (happ : app.layers = [.timing layer])
    (hbegin : (app.begin request).Alike route (app.begin request'))
    (h : app.Begins request service n p) (service' : Service σ) :
    ∃ q, app.Begins request' service' n q ∧ p.exchange.Alike route q.exchange := by
  induction h with
  | first => exact ⟨_, .first, hbegin⟩
  | next _ hpass ih =>
    obtain ⟨q, hq, halike⟩ := ih
    obtain ⟨q', hagain, halike'⟩ := again_alike happ halike hpass
    exact ⟨q', hq.next hagain, halike'⟩

end App

/-! ## What is recorded -/

/-- The key under which a measurement was handed over. -/
def Dealing.key? : Dealing → Option TimerKey
  | asked (.recorded timer _ _) _ => some timer.key
  | _ => none

/-- The registry crashed over it. -/
def Dealing.IsCrash (dealing : Dealing) : Prop :=
  ∃ call message, dealing = asked call (.crashed message)

/-- **The keys of what was handed over** are those of the timers, up to a crash. -/
theorem HandedOver.keys {elapsed : Duration} {a : Attribution} {timers : List Timer}
    {dealings : List Dealing} (h : HandedOver elapsed a timers dealings) :
    dealings.filterMap Dealing.key? <+: timers.map Timer.key ∧
      ((∀ dealing ∈ dealings, ¬dealing.IsCrash) →
        dealings.filterMap Dealing.key? = timers.map Timer.key) := by
  induction h with
  | nil => exact ⟨List.nil_prefix, fun _ => rfl⟩
  | @crash timer timers message =>
    refine ⟨⟨timers.map Timer.key, rfl⟩, fun hnone => ?_⟩
    exact absurd ⟨_, _, rfl⟩ (hnone _ List.mem_cons_self)
  | @next timer timers verdict dealings _ _ ih =>
    have hcons : (Dealing.asked (.recorded timer elapsed a) verdict :: dealings).filterMap
        Dealing.key? = timer.key :: dealings.filterMap Dealing.key? := rfl
    rw [hcons, List.map_cons]
    refine ⟨List.prefix_cons_inj _ |>.mpr ih.1, fun hnone => ?_⟩
    rw [ih.2 fun dealing hd => hnone dealing (List.mem_cons_of_mem _ hd)]

/-- The keys under which an exchange is recorded when its last pass has ended so. -/
def TimingLayer.keysAt (layer : TimingLayer σ) (route : Option (Route σ))
    (ended : Passage σ × Ending) : List TimerKey :=
  match ended.2 with
  | .crashed _ => []
  | ending =>
    (layer.timersFor route
      (layer.resolve ended.1.exchange (ending.failure ended.1.exchange))).map Timer.key

theorem Concluded.keys {layer : TimingLayer σ} {route : Option (Route σ)}
    {ended : Passage σ × Ending} {dealings : List Dealing}
    (h : Concluded layer route ended dealings) :
    dealings.filterMap Dealing.key? <+: layer.keysAt route ended ∧
      ((∀ dealing ∈ dealings, ¬dealing.IsCrash) →
        dealings.filterMap Dealing.key? = layer.keysAt route ended) := by
  obtain ⟨last, ending⟩ := ended
  match ending with
  | .crashed message =>
    obtain rfl : dealings = [] := h
    exact ⟨List.nil_prefix, fun _ => rfl⟩
  | .returned result =>
    obtain ⟨elapsed, a, handed, rfl, hhanded⟩ := h
    refine ⟨hhanded.keys.1, fun hnone => hhanded.keys.2 fun dealing hd => ?_⟩
    exact hnone dealing (List.mem_cons_of_mem _ hd)

/-- Exchanges that ended alike are recorded under the same keys. -/
theorem TimingLayer.keysAt_alike {layer : TimingLayer σ} {ignoreFinalSlash : Bool}
    (htags : layer.tags = StandardTags.provider ignoreFinalSlash) {route : Route σ}
    {ended ended' : Passage σ × Ending} (hending : ended.2 = ended'.2)
    (h : ended.1.exchange.Alike route ended'.1.exchange) :
    layer.keysAt (some route) ended = layer.keysAt (some route) ended' := by
  have hresolve : ∀ failure, layer.resolve ended.1.exchange failure =
      layer.resolve ended'.1.exchange failure := by
    intro failure
    rw [resolve, resolve, htags, h.routed.1, h.routed.2, h.status]
    exact congrArg Except.ok (StandardTags.tags_congr h.method h.status nofun)
  have hfailure : ∀ ending : Ending, ending.failure ended.1.exchange =
      ending.failure ended'.1.exchange := by
    intro ending
    simp only [Ending.failure, h.error]
  rw [keysAt, keysAt, hending]
  split
  next => rfl
  next => rw [hresolve, hfailure]

namespace Service

/-- **The keys gained** between two states of a service: those under which measurements were handed
to a registry. -/
def keysGained (registry : Nat) (s t : Service σ) : List TimerKey :=
  ((t.journal.drop s.journal.length).filterMap (Entry.dealing? registry)).filterMap Dealing.key?

/-- The registry crashed over a call between two states of a service. -/
def CrashedOver (registry : Nat) (s t : Service σ) : Prop :=
  ∃ dealing ∈ (t.journal.drop s.journal.length).filterMap (Entry.dealing? registry),
    dealing.IsCrash

/-- **Recorded under** the keys: up to a crash of the registry, and all of them without one. -/
def RecordedUnder (registry : Nat) (s t : Service σ) (keys : List TimerKey) : Prop :=
  s.keysGained registry t <+: keys ∧ (¬s.CrashedOver registry t → s.keysGained registry t = keys)

end Service

/-- A request is recorded under the keys of its last pass. -/
theorem Concluded.recordedUnder {layer : TimingLayer σ} {route : Option (Route σ)}
    {ended : Passage σ × Ending} {dealings : List Dealing} {s t : Service σ} {a : Attribution}
    (h : Concluded layer route ended dealings)
    (hdeals : s.Deals layer.registry t (.asked (.started a) .taken :: dealings)) :
    s.RecordedUnder layer.registry t (layer.keysAt route ended) := by
  obtain ⟨entries, hjournal, hentries⟩ := hdeals.told
  have hgained : (t.journal.drop s.journal.length).filterMap (Entry.dealing? layer.registry) =
      .asked (.started a) .taken :: dealings := by
    rw [hjournal, List.drop_left, hentries]
  rw [Service.RecordedUnder, Service.keysGained, Service.CrashedOver, hgained]
  refine ⟨h.keys.1, fun hnone => h.keys.2 fun dealing hd hcrash => hnone ?_⟩
  exact ⟨dealing, List.mem_cons_of_mem _ hd, hcrash⟩

namespace App

/-- **Two requests with the same replies** on the same route are recorded under the same keys. -/
theorem recorded_alike {app : App σ} {layer : TimingLayer σ} {ignoreFinalSlash : Bool}
    {route : Route σ} {request request' : Request} (happ : app.layers = [.timing layer])
    (htags : layer.tags = StandardTags.provider ignoreFinalSlash)
    (hbegin : (app.begin request).Alike route (app.begin request'))
    (service service' : Service σ) :
    ∃ keys, service.RecordedUnder layer.registry (app.handle request service).1 keys ∧
      service'.RecordedUnder layer.registry (app.handle request' service').1 keys := by
  obtain ⟨n, p, q, crash, dealings, hp, hfinal, hhandle, hconcluded, hdeals⟩ :=
    deals_of_run happ (List.forall_mem_nil _) request service
  obtain ⟨m, p', q', crash', dealings', hp', hfinal', hhandle', hconcluded', hdeals'⟩ :=
    deals_of_run happ (List.forall_mem_nil _) request' service'
  rw [hbegin.routed.1] at hconcluded
  rw [hbegin.routed.2] at hconcluded'
  -- the last pass of one request has the number of that of the other
  have hlast : ∀ {p q : Passage σ} {crash}, app.pass p = .final q crash →
      ∀ p', app.pass p ≠ .again p' := fun hfinal p' hagain => nomatch hfinal.symm.trans hagain
  obtain ⟨r, hr, -⟩ := hp'.alike happ hbegin.symm service
  obtain ⟨r', hr', halike⟩ := hp.alike happ hbegin service'
  have hle := hp.le_of_last (hlast hfinal) hr
  have hge := hp'.le_of_last (hlast hfinal') hr'
  obtain rfl : m = n := Nat.le_antisymm hle hge
  obtain rfl := hp'.unique hr'
  obtain ⟨hending, hended⟩ := ended_alike happ halike
  rw [hhandle, hhandle']
  refine ⟨layer.keysAt (some route) (app.ended p), hconcluded.recordedUnder hdeals, ?_⟩
  rw [TimingLayer.keysAt_alike htags hending hended]
  exact hconcluded'.recordedUnder hdeals'

/-- **Tags carry no request data** beyond the method and the route. The standard tags of two
exchanges are the same if both have the same method, status and outcome, and the same route, or none
and paths of which both are the root or neither is. Their keys are always the same seven, and the
place they tell is the pattern of the route, with or without a final slash, or one of four fixed
ones. So two requests of one method that match the same route and get the same replies, by an
application with a timing layer alone, are recorded under the same keys, whatever else they
contain. -/
theorem tags_carry_no_request_data (ignoreFinalSlash : Bool) :
    (∀ (x y : Exchange σ) (route : Option (Route σ)) (outcome : Outcome),
      x.request.method = y.request.method → x.status = y.status →
      (route = none → (x.request.IsRoot ↔ y.request.IsRoot)) →
      StandardTags.provider ignoreFinalSlash x route outcome =
        StandardTags.provider ignoreFinalSlash y route outcome) ∧
    (∀ (x : Exchange σ) (route : Option (Route σ)) (outcome : Outcome), ∃ tags place,
      StandardTags.provider ignoreFinalSlash x route outcome = .ok tags ∧
      (∀ key, (tags.get? key).isSome ↔ key ∈ StandardTags.keys) ∧
      tags.get? "uri" = some place ∧ StandardTags.IsPlace place route) ∧
    ∀ (app : App σ) (layer : TimingLayer σ) (route : Route σ) (request request' : Request)
      (params params' : RouteTable.Params) (service service' : Service σ),
      app.layers = [.timing layer] → layer.tags = StandardTags.provider ignoreFinalSlash →
      request.method = request'.method →
      app.routes.lookup request.method request.path = some (route, params) →
      app.routes.lookup request'.method request'.path = some (route, params') →
      (route.handler { request with params }).replies =
        (route.handler { request' with params := params' }).replies →
      ∃ keys, service.RecordedUnder layer.registry (app.handle request service).1 keys ∧
        service'.RecordedUnder layer.registry (app.handle request' service').1 keys := by
  refine ⟨?_, ?_, ?_⟩
  · intro x y route outcome hmethod hstatus hroot
    exact congrArg Except.ok (StandardTags.tags_congr hmethod hstatus hroot)
  · intro x route outcome
    exact ⟨_, _, rfl, fun key => StandardTags.isSome_get?_iff, StandardTags.get?_uri,
      StandardTags.isPlace_uri⟩
  · intro app layer route request request' params params' service service' happ htags hmethod hfound
      hfound' hreplies
    have hbegin : (app.begin request).Alike route (app.begin request') := by
      rw [begin_of_lookup hfound, begin_of_lookup hfound']
      exact ⟨hmethod, ⟨rfl, rfl⟩, hreplies, rfl, rfl, rfl, rfl, rfl⟩
    exact recorded_alike happ htags hbegin service service'

end App

/-! ## Two visitors -/

namespace Exports

/-- A route whose handler keeps count, and answers when it has done so. -/
def orderRoute : Route Nat :=
  .ofHandler .get "/orders/{id}" "orders::get" fun _ =>
    .defer (.touch (· + 1) (.answer (.text "")))

/-- The application with this route and a timing layer. -/
def orderBook : App Nat :=
  { routes := [⟨orderRoute, (Pattern.parse orderRoute.pattern).toOption.getD []⟩]
    layers := [.timing { registry := 0 }] }

/-- Two requests with nothing in common but their method and route. -/
def visitor : Request := (Request.forTarget "/orders/17").withField "cookie" "session=1"

def otherVisitor : Request := Request.forTarget "/orders/18?full=true"

/-- The key of both. -/
def orderKey : TimerKey :=
  ⟨"http.server.requests", StandardTags.tags false
    (orderBook.begin visitor) (some orderRoute) (.completed .ok)⟩

/-- The visitors are recorded under the same key. -/
theorem visitors_recorded_alike :
    let service : Service Nat := { state := 0, registries := [.memory {}] }
    (∃ keys, service.RecordedUnder 0 (orderBook.handle visitor service).1 keys ∧
      service.RecordedUnder 0 (orderBook.handle otherVisitor service).1 keys) ∧
    service.keysGained 0 (orderBook.handle visitor service).1 = [orderKey] ∧
    service.keysGained 0 (orderBook.handle otherVisitor service).1 = [orderKey] := by
  intro service
  have hfound : orderBook.routes.lookup visitor.method visitor.path =
      some (orderRoute, .ofList [("id", "17")]) := rfl
  have hfound' : orderBook.routes.lookup otherVisitor.method otherVisitor.path =
      some (orderRoute, .ofList [("id", "18")]) := rfl
  obtain ⟨-, -, hrecorded⟩ := @App.tags_carry_no_request_data Nat false
  exact ⟨hrecorded orderBook { registry := 0 } orderRoute visitor otherVisitor _ _ service service
    rfl rfl rfl hfound hfound' rfl, by decide +kernel, by decide +kernel⟩

end Exports

end TimedHttp
