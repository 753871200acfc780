import Mathlib.Data.List.Nodup
import TimedHttp.Proofs.ExchangeStates
import TimedHttp.Proofs.RouteSearch

/-!
# Path parameters rebuild the path

A search for the route of a path gives the values of its placeholders. With these values in their
places, the pattern of the route is the path again. The parameters keep one value under each name:
so they rebuild the path if the placeholders of one name have taken the same text, and only then.

## Main definitions

* `RouteTable.rebuild` — the text of a pattern with parameters in the places of their names
* `Pattern.Consistent` — the placeholders of one name have the same value

## Main statements

* `Pattern.fillMarks_of_read` — a pattern that was read is filled as it stands in the text
* `RouteTable.rebuild_iff` — when the parameters rebuild the path
* `App.parameters_rebuild_path` — for the route of a request, and for its handler
-/

namespace TimedHttp

namespace Pattern

/-! ## Filling a pattern -/

/-- The text of a path with values for the placeholders of a pattern. -/
def fill (value : List Char → List Char) : Pattern → List Char
  | [] => []
  | .literal c :: rest => c :: fill value rest
  | .parameter name :: rest => value name ++ fill value rest
  | .remainder name :: rest => value name ++ fill value rest

/-! ## Filling the text of a pattern -/

/-- The name between two braces, which may have a star in front of it. -/
def placeholderName : List Char → List Char
  | '*' :: name => name
  | name => name

/-- The text of a pattern with values for its placeholders. What is read of a placeholder that is
still open stands in `inside`. -/
def fillMarks (value : List Char → List Char) : Option (List Char) → List Mark → List Char
  | none, [] => []
  | none, .opening :: rest => fillMarks value (some []) rest
  | none, mark :: rest => mark.char :: fillMarks value none rest
  | some _, [] => []
  | some inside, .closing :: rest => value (placeholderName inside) ++ fillMarks value none rest
  | some inside, mark :: rest => fillMarks value (some (inside ++ [mark.char])) rest

/-- What is read of a placeholder at a place inside it. -/
def Place.inside : Place → Option (List Char)
  | outside => none
  | opened => some []
  | parameterName name => some name
  | remainderName name => some ('*' :: name)

/-- The name of a parameter does not begin with a star, and some of it is read. -/
def Place.Proper : Place → Prop
  | parameterName name => ∃ c rest, name = c :: rest ∧ c ≠ '*'
  | _ => True

theorem fillMarks_name {value : List Char → List Char} {mark : Mark} (h : mark ≠ .closing)
    (inside : List Char) (rest : List Mark) :
    fillMarks value (some inside) (mark :: rest) =
      fillMarks value (some (inside ++ [mark.char])) rest := by
  cases mark with
  | closing => exact absurd rfl h
  | plain | opening => rfl

/-- In a name the reader goes on with the name, up to a closing brace. -/
theorem read_name {place : List Char → Place}
    (hplace : place = .parameterName ∨ place = .remainderName) {room : Nat} {name : List Char}
    {mark : Mark} {rest : List Mark} {p : Pattern} (hmark : mark ≠ .closing)
    (h : read room (place name) (mark :: rest) = .ok p) :
    read room (place (name ++ [mark.char])) rest = .ok p := by
  cases mark with
  | closing => exact absurd rfl hmark
  | plain | opening =>
    rcases hplace with rfl | rfl <;> simp only [read] at h <;> split at h
    all_goals first | exact h | cases h

theorem ok_of_map {α β ε : Type} {f : α → β} {e : Except ε α} {b : β}
    (h : e.map f = .ok b) : ∃ a, e = .ok a ∧ f a = b := by
  cases e with
  | error => cases h
  | ok a =>
    cases h
    exact ⟨a, rfl, rfl⟩

theorem read_plain {room : Nat} {c : Char} {rest : List Mark} {p : Pattern}
    (h : read room .outside (.plain c :: rest) = .ok p) :
    ∃ q, read room .outside rest = .ok q ∧ p = .literal c :: q := by
  obtain ⟨q, hq, rfl⟩ := ok_of_map h
  exact ⟨q, hq, rfl⟩

/-- Behind an opening brace begins the name of a remainder, after a star, or that of a parameter. -/
theorem read_opened {room : Nat} {mark : Mark} {rest : List Mark} {p : Pattern}
    (h : read room .opened (mark :: rest) = .ok p) :
    mark ≠ .closing ∧
      (mark.char = '*' ∧ read room (.remainderName []) rest = .ok p ∨
        mark.char ≠ '*' ∧ read room (.parameterName [mark.char]) rest = .ok p) := by
  simp only [read] at h
  split at h
  next => cases h
  next hbrace =>
    refine ⟨fun hc => hbrace (by rw [hc]; rfl), ?_⟩
    split at h
    next hstar => exact .inl ⟨by rw [hstar]; rfl, h⟩
    next hstar =>
      refine .inr ⟨?_, h⟩
      cases mark with
      | plain c => exact fun hc => hstar (congrArg Mark.plain hc)
      | opening | closing => decide

theorem read_parameter_closing {room : Nat} {name : List Char} {rest : List Mark} {p : Pattern}
    (h : read room (.parameterName name) (.closing :: rest) = .ok p) :
    ∃ room q, read room .outside rest = .ok q ∧ p = .parameter name :: q := by
  cases room with
  | zero => cases h
  | succ room =>
    obtain ⟨q, hq, rfl⟩ := ok_of_map h
    exact ⟨room, q, hq, rfl⟩

theorem read_remainder_closing {room : Nat} {name : List Char} {rest : List Mark} {p : Pattern}
    (h : read room (.remainderName name) (.closing :: rest) = .ok p) :
    ∃ q, read room .outside rest = .ok q ∧ p = .remainder name :: q := by
  simp only [read] at h
  split at h
  next => cases h
  next =>
    obtain ⟨q, hq, rfl⟩ := ok_of_map h
    exact ⟨q, hq, rfl⟩

theorem placeholderName_of_ne_star {c : Char} (h : c ≠ '*') (rest : List Char) :
    placeholderName (c :: rest) = c :: rest := by
  rw [placeholderName]
  rintro name heq
  cases heq
  exact h rfl

/-- **A pattern that was read is filled as it stands in the text.** The induction is on what is
still to be read, from any place: what is read of a name goes along as `inside`. -/
theorem fillMarks_of_read {value : List Char → List Char} {room : Nat} {place : Place}
    {marks : List Mark} {p : Pattern} (hplace : place.Proper)
    (h : read room place marks = .ok p) : fillMarks value place.inside marks = fill value p := by
  induction marks generalizing room place p with
  | nil =>
    cases place with
    | outside =>
      cases h
      rfl
    | opened | parameterName | remainderName => cases h
  | cons mark rest ih =>
    cases place with
    | outside =>
      cases mark with
      | plain c =>
        obtain ⟨q, hq, rfl⟩ := read_plain h
        exact congrArg (c :: ·) (ih hplace hq)
      | opening => exact @ih room .opened p trivial h
      | closing => cases h
    | opened =>
      obtain ⟨hmark, ⟨hstar, h⟩ | ⟨hstar, h⟩⟩ := read_opened h <;>
        rw [Place.inside, fillMarks_name hmark]
      · rw [hstar]
        exact @ih room (.remainderName []) p trivial h
      · exact @ih room (.parameterName [mark.char]) p ⟨mark.char, [], rfl, hstar⟩ h
    | parameterName name =>
      obtain ⟨c, more, rfl, hc⟩ := hplace
      by_cases hmark : mark = .closing
      · subst hmark
        obtain ⟨room, q, hq, rfl⟩ := read_parameter_closing h
        have hvalue : value (placeholderName (c :: more)) = value (c :: more) :=
          congrArg value (placeholderName_of_ne_star hc more)
        exact congr (congrArg _ hvalue) (@ih room .outside q trivial hq)
      · rw [Place.inside, fillMarks_name hmark]
        exact @ih room (.parameterName (c :: more ++ [mark.char])) p ⟨c, _, rfl, hc⟩
          (read_name (.inl rfl) hmark h)
    | remainderName name =>
      by_cases hmark : mark = .closing
      · subst hmark
        obtain ⟨q, hq, rfl⟩ := read_remainder_closing h
        exact congrArg (value name ++ ·) (@ih room .outside q trivial hq)
      · rw [Place.inside, fillMarks_name hmark]
        exact @ih room (.remainderName (name ++ [mark.char])) p trivial
          (read_name (.inr rfl) hmark h)

/-! ## Values of one name -/

/-- The names of the placeholders, each with its value. -/
def taken (p : Pattern) (values : List (List Char)) : List (List Char × List Char) :=
  p.names.zip values

/-- **Consistent values**: the placeholders of one name have the same value. -/
def Consistent (p : Pattern) (values : List (List Char)) : Prop :=
  ∀ a ∈ p.taken values, ∀ b ∈ p.taken values, a.1 = b.1 → a.2 = b.2

theorem consistent_of_nodup {p : Pattern} (h : p.names.Nodup) (values : List (List Char)) :
    p.Consistent values := by
  intro a ha b hb hab
  obtain ⟨i, hi, rfl⟩ := List.getElem_of_mem ha
  obtain ⟨j, hj, rfl⟩ := List.getElem_of_mem hb
  simp only [taken, List.getElem_zip] at hab ⊢
  obtain rfl := (List.Nodup.getElem_inj_iff h).mp hab
  rfl

variable {value : List Char → List Char} {p : Pattern} {values : List (List Char)}
  {path : List Char}

/-- **With its own values** in their places, a pattern is the path that fits it. -/
theorem Fits.fill (h : Fits p values path)
    (hvalue : ∀ pair ∈ p.taken values, value pair.1 = pair.2) : fill value p = path := by
  induction h with
  | nil => rfl
  | literal _ ih => exact congrArg _ (ih hvalue)
  | @parameter name v p values path _ _ _ ih =>
    have hfirst : value name = v := hvalue (name, v) List.mem_cons_self
    rw [Pattern.fill, hfirst, ih fun pair hpair => hvalue pair (List.mem_cons_of_mem _ hpair)]
  | @remainder name v _ =>
    have hfirst : value name = v := hvalue (name, v) List.mem_cons_self
    rw [Pattern.fill, hfirst, Pattern.fill, List.append_nil]

/-- Each placeholder of a pattern that fits has a value. -/
theorem Fits.exists_taken (h : Fits p values path) {name : List Char} (hname : name ∈ p.names) :
    ∃ v, (name, v) ∈ p.taken values := by
  induction h with
  | nil => exact absurd hname List.not_mem_nil
  | literal _ ih => exact ih hname
  | @parameter first v p values path _ _ _ ih =>
    rcases List.mem_cons.mp hname with rfl | hname
    · exact ⟨v, List.mem_cons_self⟩
    · obtain ⟨w, hw⟩ := ih hname
      exact ⟨w, List.mem_cons_of_mem _ hw⟩
  | @remainder first v _ =>
    obtain rfl := List.mem_singleton.mp hname
    exact ⟨v, List.mem_cons_self⟩

/-- The last placeholder has the value that stands under its name. -/
def LastAgrees (value : List Char → List Char) (pairs : List (List Char × List Char)) : Prop :=
  ∀ front pair, pairs = front ++ [pair] → value pair.1 = pair.2

theorem LastAgrees.tail {pair : List Char × List Char} {pairs : List (List Char × List Char)}
    (h : LastAgrees value (pair :: pairs)) : LastAgrees value pairs := fun front last heq =>
  h (pair :: front) last (by rw [heq, List.cons_append])

/-- Only the last placeholder may have taken slashes, so no slash is lost by other values. -/
theorem Fits.count_le (h : Fits p values path) (hlast : LastAgrees value (p.taken values)) :
    path.count '/' ≤ (Pattern.fill value p).count '/' := by
  induction h with
  | nil => exact Nat.le_refl _
  | literal _ ih =>
    rw [Pattern.fill, List.count_cons, List.count_cons]
    exact Nat.add_le_add_right (ih hlast) _
  | @parameter name v p values path _ hslash _ ih =>
    have hrest := ih hlast.tail
    rw [Pattern.fill, List.count_append, List.count_append, List.count_eq_zero.mpr hslash]
    omega
  | @remainder name v _ =>
    have hname : value name = v := hlast [] (name, v) rfl
    have hfill : Pattern.fill value [.remainder name] = v := by
      rw [Pattern.fill, hname, Pattern.fill, List.append_nil]
    exact Nat.le_of_eq (congrArg _ hfill.symm)

/-- Behind a parameter, the rest of the segment is the same for all values. -/
theorem Fits.segment_fill (h : Fits p values path) (hfault : fault true p = none) :
    segment (Pattern.fill value p) = segment path := by
  induction h with
  | nil => rfl
  | @literal c p values path _ ih =>
    simp only [Pattern.fill, segment, List.takeWhile_cons]
    split
    next hc =>
      refine congrArg _ (ih ?_)
      simpa [fault, of_decide_eq_true hc] using hfault
    next => rfl
  | parameter => cases hfault
  | remainder => cases hfault

/-- **If other values give the same path, they are the same.** They agree on the last placeholder,
so they have no more slashes elsewhere; so each segment has its one placeholder in the same
place. -/
theorem Fits.value_of_fill (h : Fits p values path) {taken : Bool} (hfault : fault taken p = none)
    (hlast : LastAgrees value (p.taken values)) (hfill : Pattern.fill value p = path) :
    ∀ pair ∈ p.taken values, value pair.1 = pair.2 := by
  induction h generalizing taken with
  | nil => exact List.forall_mem_nil _
  | literal _ ih => exact ih hfault hlast (List.cons.inj hfill).2
  | @parameter name v p values path _ hslash hfits ih =>
    have hbehind : fault true p = none := by
      rw [fault] at hfault
      split at hfault
      next => cases hfault
      next => exact hfault
    have hcount := hfits.count_le hlast.tail
    have hsum : (value name).count '/' + (Pattern.fill value p).count '/' = path.count '/' := by
      rw [← List.count_append, ← Pattern.fill, hfill, List.count_append,
        List.count_eq_zero.mpr hslash, Nat.zero_add]
    have hnone : '/' ∉ value name := List.count_eq_zero.mp (by omega)
    have hsegment : ∀ {front : List Char} (back : List Char), '/' ∉ front →
        segment (front ++ back) = front ++ segment back := by
      intro front back hfront
      refine List.takeWhile_append_of_pos fun c hc => decide_eq_true ?_
      rintro rfl
      exact hfront hc
    have hfirst : value name = v := by
      have hboth := congrArg segment hfill
      rw [Pattern.fill, hsegment _ hnone, hsegment _ hslash, hfits.segment_fill hbehind] at hboth
      exact List.append_cancel_right hboth
    rw [Pattern.fill, hfirst] at hfill
    have hrest := ih hbehind hlast.tail (List.append_cancel_left hfill)
    rintro pair hpair
    rcases List.mem_cons.mp hpair with rfl | hpair
    · exact hfirst
    · exact hrest pair hpair
  | @remainder name v _ =>
    intro pair hpair
    obtain rfl := List.mem_singleton.mp hpair
    exact hlast [] (name, v) rfl

end Pattern

namespace RouteTable

open Pattern

/-! ## Rebuilding a path -/

/-- The text that stands for a name among the parameters. -/
def valueOf (params : Params) (name : List Char) : List Char :=
  ((params.get? (String.ofList name)).getD "").toList

/-- **The text of a pattern with parameters** in the places of their names. -/
def rebuild (pattern : String) (params : Params) : String :=
  String.ofList (fillMarks (valueOf params) none (marks pattern.toList))

theorem get?_params (p : Pattern) (values : List (List Char)) (name : List Char) :
    (params p values).get? (String.ofList name) =
      (SortedMap.lastWritten name (p.taken values)).map String.ofList := by
  rw [params, SortedMap.get?_ofList, Pattern.taken]
  generalize p.names.zip values = pairs
  induction pairs with
  | nil => rfl
  | cons pair pairs ih =>
    have hname : String.ofList pair.1 = String.ofList name ↔ pair.1 = name :=
      ⟨fun h => by simpa using congrArg String.toList h, fun h => h ▸ rfl⟩
    rw [List.map_cons, SortedMap.lastWritten_cons, SortedMap.lastWritten_cons, ih]
    cases SortedMap.lastWritten name pairs with
    | some v => rfl
    | none => by_cases h : pair.1 = name <;> simp [hname, h]

/-- The value of a name among the parameters is one that a placeholder of this name has taken. -/
theorem valueOf_params {p : Pattern} {values : List (List Char)} {pair : List Char × List Char}
    (h : pair ∈ p.taken values) : (pair.1, valueOf (params p values) pair.1) ∈ p.taken values := by
  rw [valueOf, get?_params]
  cases hlast : SortedMap.lastWritten pair.1 (p.taken values) with
  | none => exact absurd rfl (SortedMap.lastWritten_eq_none_iff.mp hlast pair h)
  | some v =>
    simpa using SortedMap.mem_of_lastWritten hlast

theorem isSome_get?_params {p : Pattern} {values : List (List Char)} {path : List Char}
    (hfits : p.Fits values path) {name : List Char} (hname : name ∈ p.names) :
    ((params p values).get? (String.ofList name)).isSome = true := by
  obtain ⟨v, hv⟩ := hfits.exists_taken hname
  rw [get?_params, Option.isSome_map, Option.isSome_iff_ne_none]
  exact fun hnone => SortedMap.lastWritten_eq_none_iff.mp hnone _ hv rfl

theorem lastAgrees_params (p : Pattern) (values : List (List Char)) :
    LastAgrees (valueOf (params p values)) (p.taken values) := by
  intro front pair heq
  rw [valueOf, get?_params, heq]
  simp [SortedMap.lastWritten]

/-- **When the parameters rebuild the path**: if the placeholders of one name have taken the same
text, and only then. -/
theorem rebuild_iff {text path : String} {p : Pattern} {values : List (List Char)}
    (hparse : Pattern.parse text = .ok p) (hfault : Pattern.fault false p = none)
    (hfits : p.Fits values path.toList) :
    rebuild text (params p values) = path ↔ p.Consistent values := by
  have hfill : rebuild text (params p values) = path ↔
      Pattern.fill (valueOf (params p values)) p = path.toList := by
    have hread := @fillMarks_of_read (valueOf (params p values)) _ .outside _ p trivial hparse
    rw [rebuild, ← String.toList_inj, String.toList_ofList, ← hread]
    exact Iff.rfl
  rw [hfill]
  constructor
  · intro heq a ha b hb hab
    have hvalues := hfits.value_of_fill hfault (lastAgrees_params p values) heq
    rw [← hvalues a ha, ← hvalues b hb, hab]
  · intro hconsistent
    exact hfits.fill fun pair hpair => hconsistent _ (valueOf_params hpair) pair hpair rfl

end RouteTable

/-! ## The handler -/

namespace App

variable {σ : Type}

/-- **Path parameters rebuild the path.** A route that is found was registered for the method. Each
name in its pattern has a value, and with these values in the places of their names the pattern is
the path, if the placeholders of one name have taken the same text, and only then; so it is if no
name is repeated. On every pass that reaches its end, the request has these parameters; on the first
one the handler of the route is called with it. -/
theorem parameters_rebuild_path {app : App σ} {routes : List (Route σ)} {method : Method}
    {path : String} {route : Route σ} {params : RouteTable.Params}
    (hbuilt : routes.foldlM RouteTable.register [] = .ok app.routes)
    (hfound : app.routes.lookup method path = some (route, params)) :
    route ∈ routes ∧ route.method = method ∧
    (∃ pattern values, Pattern.parse route.pattern = .ok pattern ∧
      pattern.Fits values path.toList ∧ params = RouteTable.params pattern values ∧
      (∀ name ∈ pattern.names, (params.get? (String.ofList name)).isSome) ∧
      (RouteTable.rebuild route.pattern params = path ↔ pattern.Consistent values) ∧
      (pattern.names.Nodup → RouteTable.rebuild route.pattern params = path)) ∧
    ∀ request service n p q, request.method = method → request.path = path →
      app.Begins request service n p → Chain.reached? 0 app.layers (opened p) = some q →
      q.exchange.request = { request with params } ∧ q.exchange.route = some route ∧
        (q.exchange.kind = .request →
          q.exchange.due? = some (route.handler { request with params }).reply) := by
  have hregistered : ∀ entry ∈ app.routes, RouteTable.RegisteredFrom routes entry :=
    fun entry hentry =>
      (RouteTable.registered_of_foldlM hbuilt entry hentry).resolve_left List.not_mem_nil
  obtain ⟨entry, hentry, hroute, hmethod, values, hfits, hparams⟩ :=
    RouteTable.lookup_fits (fun entry hentry => (hregistered entry hentry).sound) hfound
  obtain ⟨hmem, hparsed, hsound⟩ := hregistered entry hentry
  rw [hroute] at hmem hparsed
  have hiff := RouteTable.rebuild_iff hparsed hsound hfits
  rw [← hparams] at hiff
  refine ⟨hmem, hmethod, ⟨entry.pattern, values, hparsed, hfits, hparams, fun name hname => ?_,
    hiff, fun hnodup => hiff.mpr (Pattern.consistent_of_nodup hnodup values)⟩, ?_⟩
  · rw [hparams]
    exact RouteTable.isSome_get?_params hfits hname
  · intro request service n p q hm hp hbegins hreached
    have hbegin : app.begin request = .fresh { request with params } (some route) :=
      begin_of_lookup (by rw [hm, hp, hfound])
    obtain ⟨hrequest, hsame⟩ : (app.begin request).Continues q.exchange :=
      hbegins.continues.trans (Chain.run_of_reached? hreached).1.continues
    rw [hbegin] at hrequest hsame
    refine ⟨hrequest, hsame, fun hkind => ?_⟩
    have hcalled : q.exchange.due? = some (route.handler q.exchange.request).reply := by
      simp only [Exchange.due?, hkind, hsame, Exchange.fresh]
    rw [hcalled, hrequest]
    rfl

end App

/-! ## Files, and twins -/

namespace Exports

/-- A route to the files of an order. -/
def fileRoute : Route Unit :=
  .ofHandler .get "/orders/{id}/\x7b\x7b{*file}" "orders::file" fun _ => .answer (.text "")

/-- An application with this route. -/
def files : App Unit :=
  { routes := [⟨fileRoute, (Pattern.parse fileRoute.pattern).toOption.getD []⟩] }

/-- The parameters rebuild the path, brace and slashes included. -/
theorem files_rebuilt :
    ∃ params, files.routes.lookup .get "/orders/42/\x7ba/b" = some (fileRoute, params) ∧
      params = .ofList [("id", "42"), ("file", "a/b")] ∧
      RouteTable.rebuild fileRoute.pattern params = "/orders/42/\x7ba/b" := by
  have hbuilt : [fileRoute].foldlM RouteTable.register [] = .ok files.routes := rfl
  have hfound : files.routes.lookup .get "/orders/42/\x7ba/b" =
      some (fileRoute, .ofList [("id", "42"), ("file", "a/b")]) := rfl
  obtain ⟨-, -, ⟨pattern, values, hparse, -, -, -, -, hrebuild⟩, -⟩ :=
    App.parameters_rebuild_path hbuilt hfound
  have hpattern : pattern = (Pattern.parse fileRoute.pattern).toOption.getD [] := by
    rw [hparse]
    rfl
  refine ⟨_, hfound, rfl, hrebuild ?_⟩
  rw [hpattern]
  decide

/-- A route with two parameters of one name. -/
def twinRoute : Route Unit :=
  .ofHandler .get "/{a}/{a}" "orders::twin" fun _ => .answer (.text "")

/-- Its parameters keep the second one only, and rebuild another path. -/
theorem twins_not_rebuilt :
    ∃ table params, [twinRoute].foldlM RouteTable.register [] = .ok table ∧
      table.lookup .get "/1/2" = some (twinRoute, params) ∧ params = .ofList [("a", "2")] ∧
      RouteTable.rebuild twinRoute.pattern params = "/2/2" ∧
      RouteTable.rebuild twinRoute.pattern params ≠ "/1/2" :=
  ⟨_, _, rfl, rfl, rfl, rfl, by decide⟩

end Exports

end TimedHttp
