import TimedHttp.Proofs.WorkOrder

/-!
# Nesting of the stages

The stages of a pass stand one inside the other. A layer is given the rest of the chain as the next
stage: it calls it at most once, and what it does otherwise depends on the rest only through what
that call returns. So the layers are entered from the outside inward, as far as each calls the next,
and left in the opposite order; the end of the chain is reached at most once, when every layer has
called the next stage.

## Main statements

* `Layer.handle` — one layer, for any stages inside it
* `Chain.Nested` — what holds of the stages of a pass
* `Chain.nested_run` — they are nested, and the journal tells of them
* `App.pass_nested` — for applications built layer by layer
-/

namespace TimedHttp

variable {σ : Type}

/-! ## One layer -/

namespace Layer

/-- **One layer**, entered in a passage at its position, around a next stage. -/
def handle (position : Nat) (layer : Layer σ) (p : Passage σ)
    (next : Passage σ → Passage σ × Ending) : Passage σ × Ending :=
  match layer with
  | .timing layer =>
    let (q, ending) := next (Chain.entered position layer p)
    ((layer.leave (Chain.measured position layer p) q ending).note (.layerLeft position ending),
      ending)
  | .custom middleware =>
    match (middleware p.sight).next with
    | .stop ending =>
      ((Chain.firstTurn position middleware p).note (.layerLeft position ending), ending)
    | .proceed after =>
      let (q, ending) := next (Chain.firstTurn position middleware p)
      let turn := after q.sight ending
      ((q.take turn).note (.layerLeft position turn.next), turn.next)

/-- The passage in which the layer calls the next stage, if it calls it. -/
def calls? (position : Nat) (layer : Layer σ) (p : Passage σ) : Option (Passage σ) :=
  match layer with
  | .timing layer => some (Chain.entered position layer p)
  | .custom middleware =>
    match (middleware p.sight).next with
    | .stop _ => none
    | .proceed _ => some (Chain.firstTurn position middleware p)

/-- A layer does the same around next stages that return the same where it calls them. -/
theorem handle_congr {position : Nat} {layer : Layer σ} {p : Passage σ}
    {next next' : Passage σ → Passage σ × Ending}
    (h : ∀ q, layer.calls? position p = some q → next q = next' q) :
    layer.handle position p next = layer.handle position p next' := by
  cases layer with
  | timing layer => simp only [handle, h _ rfl]
  | custom middleware =>
    cases hnext : (middleware p.sight).next with
    | stop ending => simp only [handle, hnext]
    | proceed after => simp only [handle, hnext, h (Chain.firstTurn position middleware p)
        (by simp only [calls?, hnext])]

end Layer

namespace Chain

/-- A pass through a layer and the rest of the chain is that layer around the pass through the
rest. -/
theorem run_cons (position : Nat) (layer : Layer σ) (rest : List (Layer σ)) (p : Passage σ) :
    run position (layer :: rest) p = layer.handle position p (run (position + 1) rest) := by
  cases layer with
  | timing layer => rfl
  | custom middleware =>
    cases hnext : (middleware p.sight).next with
    | stop ending => simp only [run_stop hnext, Layer.handle, hnext]
    | proceed after => simp only [run_proceed hnext, Layer.handle, hnext]

end Chain

/-! ## What the journal tells of the stages -/

/-- The entry, if it tells of a pass or of one of its stages: where it begins and ends, and that the
handler is called. -/
def Entry.stage? : Entry → Option Entry
  | passBegan kind => some (passBegan kind)
  | passEnded ending => some (passEnded ending)
  | layerEntered position => some (layerEntered position)
  | layerLeft position ending => some (layerLeft position ending)
  | endReached => some endReached
  | handlerCalled => some handlerCalled
  | _ => none

theorem Entry.IsTiming.stage? {e : Entry} (h : e.IsTiming) : e.stage? = none := by
  cases e <;> first | rfl | exact h.elim

/-- **One layer in the journal**: it is entered and left once, and between the two stands what the
next stage tells, if the layer calls it. -/
theorem Layer.gains_handle {position : Nat} {layer : Layer σ} {p : Passage σ}
    {next : Passage σ → Passage σ × Ending} {told : List Entry}
    (hcalled : ∀ q, layer.calls? position p = some q →
      q.service.Gains Entry.stage? (next q).1.service told)
    (hstopped : layer.calls? position p = none → told = []) :
    p.service.Gains Entry.stage? (layer.handle position p next).1.service
      (.layerEntered position :: (told ++
        [.layerLeft position (layer.handle position p next).2])) := by
  have hentered : p.service.Gains Entry.stage? (p.service.note (.layerEntered position))
      [.layerEntered position] := ⟨[_], rfl, rfl⟩
  have htiming : ∀ e : Entry, e.IsTiming → e.stage? = none := fun _ h => h.stage?
  have hleft : ∀ (s : Service σ) (ending : Ending),
      s.Gains Entry.stage? (s.note (.layerLeft position ending)) [.layerLeft position ending] :=
    fun _ _ => ⟨[_], rfl, rfl⟩
  cases layer with
  | timing layer =>
    have hinner := hcalled _ rfl
    have hin := Service.Gains.of_adds (Chain.adds_entered_timing position layer p) htiming
    have hout := Service.Gains.of_adds (Chain.adds_leave layer (Chain.measured position layer p)
      (next (Chain.entered position layer p)).1 (next (Chain.entered position layer p)).2) htiming
    exact hentered.trans (hin.trans (hinner.trans (hout.trans (hleft _ _))))
  | custom middleware =>
    have hturn : ∀ (q : Passage σ) {α : Type} (turn : Turn σ α),
        q.service.Gains Entry.stage? (q.take turn).service [] := fun q _ turn =>
      .of_adds (.of_quiet (q.quiet_take turn)) htiming
    have hfirst : p.service.Gains Entry.stage? (Chain.firstTurn position middleware p).service
        [.layerEntered position] :=
      hentered.trans (hturn (p.note (.layerEntered position)) (middleware p.sight))
    cases hnext : (middleware p.sight).next with
    | stop ending =>
      rw [hstopped (by simp only [calls?, hnext])]
      simp only [handle, hnext]
      exact hfirst.trans (hleft _ _)
    | proceed after =>
      have hinner := hcalled (Chain.firstTurn position middleware p) (by simp only [calls?, hnext])
      simp only [handle, hnext]
      exact hfirst.trans (hinner.trans ((hturn _ _).trans (hleft _ _)))

theorem Chain.gains_endpoint (p : Passage σ) :
    p.service.Gains Entry.stage? (endpoint p).1.service (endEntries p.exchange) := by
  refine ⟨endEntries p.exchange, journal_endpoint p, ?_⟩
  simp only [endEntries]
  cases p.exchange.calls <;> rfl

/-! ## The stages of a pass -/

/-- **Stage** of a pass: the passage in which it was called, and what it returned. -/
structure Stage (σ : Type) where
  arrived : Passage σ
  returned : Passage σ × Ending

/-- **The stage is that of a layer**, and `inner` is the stage that was called next, if there is
one. -/
structure Stage.IsOf (s : Stage σ) (position : Nat) (layer : Layer σ) (inner : Option (Stage σ)) :
    Prop where
  /-- a stage is called next if the layer calls it, and in the passage in which it calls it -/
  calls : layer.calls? position s.arrived = inner.map Stage.arrived
  /-- the layer does what it does around any next stage that returns to it what that one returned -/
  returns : ∀ next, (∀ t, inner = some t → next t.arrived = t.returned) →
    s.returned = layer.handle position s.arrived next

namespace Chain

/-- **Nested stages**: those of a pass through the layers, from the outermost inward, are of the
layers in their order, as far as each calls the next, and the last may be the end of the chain. -/
structure Nested (position : Nat) (layers : List (Layer σ)) (stages : List (Stage σ)) : Prop where
  length_le : stages.length ≤ layers.length + 1
  isOf : ∀ (i : Nat) layer s, layers[i]? = some layer → stages[i]? = some s →
    s.IsOf (position + i) layer stages[i + 1]?
  atEnd : ∀ s, stages[layers.length]? = some s → s.returned = endpoint s.arrived

/-- **What the journal tells** of the stages of a pass through `n` layers: the layers are entered
one after the other, the end may be reached, and the layers are left in the opposite order. -/
def told (position n : Nat) (stages : List (Stage σ)) : List Entry :=
  let layers := (stages.take n).zipIdx position
  layers.map (fun s => .layerEntered s.2) ++
    (stages[n]?.toList.flatMap fun s => endEntries s.arrived.exchange) ++
    layers.reverse.map fun s => .layerLeft s.2 s.1.returned.2

theorem told_nil (position n : Nat) : told position n ([] : List (Stage σ)) = [] := by
  simp [told]

theorem told_end (position : Nat) (s : Stage σ) :
    told position 0 [s] = endEntries s.arrived.exchange := by
  simp [told]

theorem told_cons (position n : Nat) (s : Stage σ) (stages : List (Stage σ)) :
    told position (n + 1) (s :: stages) =
      .layerEntered position :: (told (position + 1) n stages ++
        [.layerLeft position s.returned.2]) := by
  simp [told]

/-- Around nested stages, a layer that calls the first of them makes nested stages again. -/
theorem Nested.cons {position : Nat} {layer : Layer σ} {layers : List (Layer σ)} {s : Stage σ}
    {stages : List (Stage σ)} (h : Nested (position + 1) layers stages)
    (hs : s.IsOf position layer stages.head?) :
    Nested position (layer :: layers) (s :: stages) where
  length_le := Nat.succ_le_succ h.length_le
  isOf i layer' t hlayer ht := by
    cases i with
    | zero =>
      cases hlayer
      cases ht
      rwa [List.getElem?_cons_succ, ← List.head?_eq_getElem?]
    | succ i =>
      have := h.isOf i layer' t hlayer ht
      rwa [Nat.add_assoc, Nat.add_comm 1 i] at this
  atEnd := h.atEnd

theorem Nested.nil (position : Nat) (layers : List (Layer σ)) : Nested position layers [] where
  length_le := Nat.zero_le _
  isOf _ _ _ _ hs := nomatch hs
  atEnd _ hs := nomatch hs

/-- The end of the chain is nested by itself. -/
theorem Nested.end {position : Nat} {s : Stage σ} (hs : s.returned = endpoint s.arrived) :
    Nested position [] [s] where
  length_le := Nat.le_refl 1
  isOf _ _ _ hlayer _ := nomatch hlayer
  atEnd
    | _, rfl => hs

/-- **The stages of a pass are nested**, the first of them begins and ends as the pass does, and the
journal tells of them. -/
theorem nested_run (position : Nat) (layers : List (Layer σ)) (p : Passage σ) :
    ∃ stages : List (Stage σ), stages.head? = some ⟨p, run position layers p⟩ ∧
      Nested position layers stages ∧
      p.service.Gains Entry.stage? (run position layers p).1.service
        (told position layers.length stages) := by
  induction layers generalizing position p with
  | nil =>
    refine ⟨[⟨p, endpoint p⟩], rfl, .end rfl, ?_⟩
    rw [List.length_nil, told_end]
    exact gains_endpoint p
  | cons layer rest ih =>
    -- the stages inside are those of the call of the layer, and there are none without a call
    obtain ⟨stages, hhead, hnested, hcalled, hstopped⟩ : ∃ stages : List (Stage σ),
        stages.head? =
          (layer.calls? position p).map (fun q => ⟨q, run (position + 1) rest q⟩) ∧
        Nested (position + 1) rest stages ∧
        (∀ q, layer.calls? position p = some q →
          q.service.Gains Entry.stage? (run (position + 1) rest q).1.service
            (told (position + 1) rest.length stages)) ∧
        (layer.calls? position p = none → told (position + 1) rest.length stages = []) := by
      cases layer.calls? position p with
      | none => exact ⟨[], rfl, .nil _ _, by simp, fun _ => told_nil _ _⟩
      | some q =>
        obtain ⟨stages, hhead, hnested, htold⟩ := ih (position + 1) q
        exact ⟨stages, hhead, hnested, fun _ hq => Option.some.inj hq ▸ htold, by simp⟩
    refine ⟨⟨p, run position (layer :: rest) p⟩ :: stages, rfl, hnested.cons ⟨?_, ?_⟩, ?_⟩
    · rw [hhead, Option.map_map]
      exact Option.map_id'.symm
    · intro next hnext
      refine (run_cons position layer rest p).trans (Layer.handle_congr fun q hq => ?_)
      rw [hq] at hhead
      exact (hnext _ hhead).symm
    · rw [List.length_cons, told_cons, run_cons]
      exact Layer.gains_handle hcalled hstopped

/-- A stage stands inside a layer if the layer was called and calls the next stage. -/
theorem Nested.isSome_succ_iff {position : Nat} {layers : List (Layer σ)}
    {stages : List (Stage σ)} (h : Nested position layers stages) {i : Nat} {layer : Layer σ}
    (hlayer : layers[i]? = some layer) :
    (stages[i + 1]?).isSome ↔
      ∃ s, stages[i]? = some s ∧ (layer.calls? (position + i) s.arrived).isSome := by
  cases hs : stages[i]? with
  | none =>
    have hi : stages.length ≤ i + 1 := Nat.le_succ_of_le (List.getElem?_eq_none_iff.mp hs)
    simp [List.getElem?_eq_none hi]
  | some s => simp [(h.isOf i layer s hlayer hs).calls]

/-- **When the end is reached**: when every layer was called and calls the next stage. -/
theorem Nested.mem_told_iff {position : Nat} {layers : List (Layer σ)} {stages : List (Stage σ)}
    (h : Nested position layers stages) (hcalled : (stages[0]?).isSome) :
    .endReached ∈ told position layers.length stages ↔
      ∀ (i : Nat) layer, layers[i]? = some layer →
        ∃ s, stages[i]? = some s ∧ (layer.calls? (position + i) s.arrived).isSome := by
  have hend : .endReached ∈ told position layers.length stages ↔
      (stages[layers.length]?).isSome := by
    simp [told, endEntries, Option.isSome_iff_exists]
  rw [hend]
  constructor
  · intro hend i layer hlayer
    obtain ⟨hi, -⟩ := List.getElem?_eq_some_iff.mp hlayer
    refine (h.isSome_succ_iff hlayer).mp ?_
    simp only [isSome_getElem?] at hend ⊢
    omega
  · intro hcalls
    -- each layer calls the stage after it, down to the end
    have hreached : ∀ i ≤ layers.length, (stages[i]?).isSome := by
      intro i hi
      cases i with
      | zero => exact hcalled
      | succ i =>
        have hlayer := List.getElem?_eq_getElem (l := layers) hi
        exact (h.isSome_succ_iff hlayer).mpr (hcalls i _ hlayer)
    exact hreached _ (Nat.le_refl _)

end Chain

/-! ## Over a pass -/

namespace App

theorem layers_foldl_layer (app : App σ) (added : List (Layer σ)) :
    (added.foldl layer app).layers = app.layers ++ added := by
  induction added generalizing app with
  | nil => exact (List.append_nil _).symm
  | cons l added ih =>
    rw [List.foldl_cons, ih]
    exact List.append_assoc _ _ _

/-- **A pass is properly nested**. The layers, added one after the other, are entered in that order
as far as each calls the next stage, each once, and are left in the opposite order. What a layer
gets from its call is what the next stage returned. The end is reached at most once, and that is
when every layer was entered and called the next stage. -/
theorem pass_nested (routes : RouteTable σ) (added : List (Layer σ)) (p : Passage σ) :
    let app := added.foldl layer (.new routes)
    ∃ stages : List (Stage σ),
      (∃ first, stages[0]? = some first ∧ first.arrived = opened p ∧
        app.ended p = (first.returned.1.note (.passEnded first.returned.2), first.returned.2)) ∧
      Chain.Nested 0 added stages ∧
      p.service.Gains Entry.stage? (app.ended p).1.service
        (.passBegan p.exchange.kind ::
          (Chain.told 0 added.length stages ++ [.passEnded (app.ended p).2])) ∧
      (.endReached ∈ Chain.told 0 added.length stages ↔
        ∀ (i : Nat) layer, added[i]? = some layer →
          ∃ s, stages[i]? = some s ∧ (layer.calls? i s.arrived).isSome) := by
  intro app
  have hlayers : app.layers = added := layers_foldl_layer (.new routes) added
  obtain ⟨stages, hhead, hnested, htold⟩ := Chain.nested_run 0 app.layers (opened p)
  have hfirst : stages[0]? = some ⟨opened p, Chain.run 0 app.layers (opened p)⟩ := by
    rw [← List.head?_eq_getElem?, hhead]
  have hopened : p.service.Gains Entry.stage? (opened p).service [.passBegan p.exchange.kind] :=
    ⟨[_], rfl, rfl⟩
  have hended : (Chain.run 0 app.layers (opened p)).1.service.Gains Entry.stage?
      (app.ended p).1.service [.passEnded (app.ended p).2] := ⟨[_], rfl, rfl⟩
  have hend := hnested.mem_told_iff (by rw [hfirst]; rfl)
  simp only [Nat.zero_add] at hend
  rw [hlayers] at hnested htold hended hend
  exact ⟨stages, ⟨_, hfirst, rfl, rfl⟩, hnested, hopened.trans (htold.trans hended), hend⟩

end App

/-- A layer that ends the pass by itself stands inside another, and around a third. -/
example :
    let stopping : Middleware Unit := fun _ => { state := (), next := .stop (.returned (.ok ())) }
    let app := ([.custom .transparent, .custom stopping, .custom .transparent].foldl App.layer
      (.new (Exports.routes (.answer (.bare .ok)))))
    (app.ended (app.start Exports.request { state := () })).1.service.journal.filterMap
        Entry.stage? =
      [.passBegan .request, .layerEntered 0, .layerEntered 1,
        .layerLeft 1 (.returned (.ok ())), .layerLeft 0 (.returned (.ok ())),
        .passEnded (.returned (.ok ()))] := rfl

end TimedHttp
