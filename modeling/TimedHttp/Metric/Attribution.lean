import TimedHttp.Http.Request
import TimedHttp.Http.Status

/-!
# Attributions

What a measurement is attributed to: the request as it was when the sample started, and the
response, filled in once. That is done when the sample stops; but whoever has the attribution at
hand may settle the response side before, and then the result that the sample stops with has no
effect.

## Main definitions

* `Attribution.settle` — fills in the response side
* `EarlyResults` — what was settled before samples stopped
* `EarlyResults.Le` — what was settled stays settled
-/

namespace TimedHttp

/-- **Result** of an exchange: its status and the class of the error, if it failed. -/
structure ExchangeResult where
  status : Status
  error : Option String
  deriving DecidableEq

/-- **Attribution** of a measurement. -/
structure Attribution where
  method : Method
  scheme : String
  host : Option String
  target : String
  remoteAddress : Option SocketAddress
  localAddress : Option SocketAddress
  result : Option ExchangeResult := none
  deriving DecidableEq

namespace Attribution

/-- The request side of an attribution. -/
def ofRequest (r : Request) : Attribution :=
  { method := r.method
    scheme := r.scheme
    host := r.host
    target := r.target
    remoteAddress := r.remoteAddress
    localAddress := r.localAddress }

/-- Fills in the response side. Only the first call has an effect. -/
def settle (a : Attribution) (result : ExchangeResult) : Attribution :=
  match a.result with
  | none => { a with result := some result }
  | some _ => a

theorem settle_settle (a : Attribution) (r s : ExchangeResult) :
    (a.settle r).settle s = a.settle r := by
  unfold settle
  cases h : a.result <;> simp [h]

end Attribution

/-- **Early results**: the response sides that were settled before their samples stopped, by the
number of the measurement. -/
def EarlyResults := Nat → Option ExchangeResult

namespace EarlyResults

/-- Nothing was settled early. -/
def none : EarlyResults := fun _ => .none

/-- A measurement begins, perhaps with a result settled at once. -/
def start (early : EarlyResults) (measurement : Nat) (result : Option ExchangeResult) :
    EarlyResults :=
  fun m => if m = measurement then result else early m

/-- Settles the response side of a measurement. Only the first call has an effect. -/
def settle (early : EarlyResults) (measurement : Nat) (result : ExchangeResult) : EarlyResults :=
  fun m => if m = measurement then (early m).or (some result) else early m

/-- Settles one response side after the other. -/
def settleAll (early : EarlyResults) (settled : List (Nat × ExchangeResult)) : EarlyResults :=
  settled.foldl (fun early entry => early.settle entry.1 entry.2) early

/-- **What was settled stays settled**; more may have been settled since. -/
protected def Le (early later : EarlyResults) : Prop :=
  ∀ m result, early m = some result → later m = some result

protected theorem Le.refl (early : EarlyResults) : early.Le early := fun _ _ h => h

protected theorem Le.trans {early later last : EarlyResults} (h : early.Le later)
    (h' : later.Le last) : early.Le last :=
  fun m result hm => h' m result (h m result hm)

theorem le_settle (early : EarlyResults) (m : Nat) (result : ExchangeResult) :
    early.Le (early.settle m result) := by
  intro n kept hn
  simp only [settle, hn, Option.some_or]
  split <;> rfl

theorem le_settleAll (early : EarlyResults) (settled : List (Nat × ExchangeResult)) :
    early.Le (early.settleAll settled) := by
  induction settled generalizing early with
  | nil => exact .refl early
  | cons entry settled ih => exact (early.le_settle entry.1 entry.2).trans (ih _)

end EarlyResults

end TimedHttp
