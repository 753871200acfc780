import TimedHttp.Route.Table

/-!
# Methods do not interfere

A table holds the routes of all methods, but each method sees only its own. Registering a route
reads and changes nothing but the entries of its method, so the entries of a method are those that
its own routes would have built alone, whatever was registered for other methods in between, and
whatever came of that.

## Main definitions

* `RouteTable.attempt`, `RouteTable.attemptAll` — registrations that may be refused
* `RouteTable.verdicts` — what came of each of them
* `RouteTable.AlikeFor` — two tables do the same for one method

## Main statements

* `RouteTable.ofMethod_attemptAll`, `RouteTable.verdicts_of` — what one method sees of a sequence
  of registrations
* `RouteTable.foldlM_register_iff` — a sequence of registrations none of which is refused
* `RouteTable.methods_apart` — registrations and look-ups of one method beside those of others
-/

namespace TimedHttp

namespace RouteTable

variable {σ : Type}

/-! ## Registrations that may be refused -/

/-- Why a route is refused, if it is. -/
def refusal? (table : RouteTable σ) (route : Route σ) : Option RegistrationError :=
  match table.register route with
  | .error e => some e
  | .ok _ => none

/-- **Tries to register a route.** One that is refused leaves the table as it was. -/
def attempt (table : RouteTable σ) (route : Route σ) : RouteTable σ :=
  match table.register route with
  | .error _ => table
  | .ok table' => table'

/-- Tries to register routes one after the other. -/
def attemptAll (table : RouteTable σ) (routes : List (Route σ)) : RouteTable σ :=
  routes.foldl attempt table

/-- **What comes of each registration**: the routes in order, each with why it was refused, if it
was. -/
def verdicts (table : RouteTable σ) : List (Route σ) → List (Route σ × Option RegistrationError)
  | [] => []
  | route :: routes => (route, table.refusal? route) :: verdicts (table.attempt route) routes

/-- The routes of one method. -/
def routesOf (method : Method) (routes : List (Route σ)) : List (Route σ) :=
  routes.filter fun route => route.method = method

/-! ## The entries of a method -/

variable {table table' : RouteTable σ} {route : Route σ} {method : Method}

theorem ofMethod_ofMethod (table : RouteTable σ) (method : Method) :
    (table.ofMethod method).ofMethod method = table.ofMethod method := by
  rw [ofMethod, ofMethod, List.filter_filter]
  simp

theorem lookup_ofMethod (table : RouteTable σ) (method : Method) (path : String) :
    (table.ofMethod method).lookup method path = table.lookup method path := by
  rw [lookup, lookup, ofMethod_ofMethod]

theorem lookup_of_no_entries (h : table.ofMethod method = []) (path : String) :
    table.lookup method path = none := by
  rw [lookup, h]
  cases path.toList <;> rfl

/-- What a registration keeps: if a method has nothing but the empty pattern, that is left out. -/
def kept (table : RouteTable σ) (method : Method) : RouteTable σ :=
  if isBlank (table.ofMethod method) then
    table.filter fun entry => entry.route.method ≠ method
  else table

theorem ofMethod_kept (table : RouteTable σ) (method : Method) :
    (table.kept method).ofMethod method = (table.ofMethod method).kept method := by
  rw [kept, kept, ofMethod_ofMethod]
  split
  · rw [ofMethod, ofMethod, List.filter_filter, List.filter_filter]
    refine congrArg (table.filter ·) (funext fun entry => ?_)
    exact Bool.and_comm _ _
  · rfl

theorem ofMethod_kept_of_ne {other : Method} (h : other ≠ method) (table : RouteTable σ) :
    (table.kept other).ofMethod method = table.ofMethod method := by
  rw [kept]
  split
  · rw [ofMethod, ofMethod, List.filter_filter]
    refine congrArg (table.filter ·) (funext fun entry => ?_)
    by_cases hentry : entry.route.method = method <;> simp [hentry, Ne.symm h]
  · rfl

/-- **A registration** reads the entries of the method of the route, and adds one to them. -/
theorem register_eq (table : RouteTable σ) (route : Route σ) :
    table.register route =
      match Pattern.parse route.pattern with
      | .error cause => .error ⟨route.pattern, cause⟩
      | .ok pattern =>
        match fault ((table.kept route.method).ofMethod route.method) pattern with
        | some cause => .error ⟨route.pattern, cause⟩
        | none => .ok (table.kept route.method ++ [⟨route, pattern⟩]) := rfl

/-- **The entries of other methods** have no part in it. -/
theorem register_ofMethod (table : RouteTable σ) (route : Route σ) :
    (table.ofMethod route.method).register route =
      (table.register route).map (·.ofMethod route.method) := by
  rw [register_eq, register_eq, ← ofMethod_kept, ofMethod_ofMethod]
  cases Pattern.parse route.pattern with
  | error cause => rfl
  | ok pattern =>
    simp only
    cases fault ((table.kept route.method).ofMethod route.method) pattern with
    | some cause => rfl
    | none => simp [Except.map, ofMethod]

/-- **The entries of other methods** stay as they are. -/
theorem ofMethod_of_register (h : table.register route = .ok table') (hne : route.method ≠ method) :
    table'.ofMethod method = table.ofMethod method := by
  rw [register_eq] at h
  split at h
  next => cases h
  next pattern _ =>
    split at h
    next => cases h
    next =>
      cases h
      have hnew : ofMethod [⟨route, pattern⟩] method = [] := by simp [ofMethod, hne]
      rw [ofMethod, List.filter_append, ← ofMethod, ← ofMethod, hnew, List.append_nil,
        ofMethod_kept_of_ne hne]

/-! ## Sequences of registrations -/

theorem refusal?_ofMethod (table : RouteTable σ) (route : Route σ) :
    (table.ofMethod route.method).refusal? route = table.refusal? route := by
  rw [refusal?, refusal?, register_ofMethod]
  cases table.register route <;> rfl

theorem attempt_ofMethod (table : RouteTable σ) (route : Route σ) :
    (table.ofMethod route.method).attempt route =
      (table.attempt route).ofMethod route.method := by
  rw [attempt, attempt, register_ofMethod]
  cases table.register route <;> rfl

theorem ofMethod_attempt_of_ne (h : route.method ≠ method) (table : RouteTable σ) :
    (table.attempt route).ofMethod method = table.ofMethod method := by
  rw [attempt]
  split
  next => rfl
  next hregister => exact ofMethod_of_register hregister h

theorem attemptAll_cons (table : RouteTable σ) (route : Route σ) (routes : List (Route σ)) :
    table.attemptAll (route :: routes) = (table.attempt route).attemptAll routes := rfl

/-- **The entries of a method** are those that its own routes build. -/
theorem ofMethod_attemptAll (table : RouteTable σ) (routes : List (Route σ)) (method : Method) :
    (table.attemptAll routes).ofMethod method =
      (table.ofMethod method).attemptAll (routesOf method routes) := by
  induction routes generalizing table with
  | nil => rfl
  | cons route routes ih =>
    rw [attemptAll_cons, ih]
    by_cases h : route.method = method
    · subst h
      rw [← attempt_ofMethod, ← attemptAll_cons]
      exact congrArg _ (List.filter_cons_of_pos (by simp)).symm
    · rw [ofMethod_attempt_of_ne h]
      exact congrArg _ (List.filter_cons_of_neg (by simpa using h)).symm

/-- **What comes of the registrations for a method** depends on no others. -/
theorem verdicts_of (table : RouteTable σ) (routes : List (Route σ)) (method : Method) :
    (table.verdicts routes).filter (fun verdict => verdict.1.method = method) =
      (table.ofMethod method).verdicts (routesOf method routes) := by
  induction routes generalizing table with
  | nil => rfl
  | cons route routes ih =>
    rw [verdicts]
    by_cases h : route.method = method
    · subst h
      have hroutes : routesOf route.method (route :: routes) =
          route :: routesOf route.method routes := List.filter_cons_of_pos (by simp)
      rw [List.filter_cons_of_pos (by simp), ih, hroutes, verdicts, refusal?_ofMethod,
        attempt_ofMethod]
    · have hroutes : routesOf method (route :: routes) = routesOf method routes :=
        List.filter_cons_of_neg (by simpa using h)
      rw [List.filter_cons_of_neg (by simpa using h), ih, hroutes, ofMethod_attempt_of_ne h]

/-- **No route of a sequence is refused** exactly if the sequence can be registered as a whole, and
then that gives the same table. -/
theorem foldlM_register_iff {routes : List (Route σ)} {table last : RouteTable σ} :
    routes.foldlM register table = .ok last ↔
      (∀ verdict ∈ table.verdicts routes, verdict.2 = none) ∧ last = table.attemptAll routes := by
  induction routes generalizing table with
  | nil =>
    rw [verdicts]
    exact ⟨fun h => by cases h; exact ⟨List.forall_mem_nil _, rfl⟩, fun h => by rw [h.2]; rfl⟩
  | cons route routes ih =>
    rw [List.foldlM_cons, verdicts, List.forall_mem_cons, attemptAll_cons]
    cases hregister : table.register route with
    | error e =>
      have hrefused : table.refusal? route = some e := by rw [refusal?, hregister]
      refine iff_of_false nofun fun h => ?_
      cases hrefused.symm.trans h.1.1
    | ok table' =>
      have haccepted : table.refusal? route = none := by rw [refusal?, hregister]
      have hattempt : table.attempt route = table' := by rw [attempt, hregister]
      rw [hattempt]
      exact ih.trans (and_congr_left fun _ => (and_iff_right haccepted).symm)

/-- A sequence is registered as a whole if each method accepts all of its own routes. -/
theorem accepted_iff (routes : List (Route σ)) :
    (∃ last, routes.foldlM register [] = .ok last) ↔
      ∀ method, ∀ verdict ∈ verdicts [] (routesOf method routes), verdict.2 = none := by
  have hall : (∃ last, routes.foldlM register [] = .ok last) ↔
      ∀ verdict ∈ verdicts [] routes, verdict.2 = none :=
    ⟨fun ⟨_, h⟩ => (foldlM_register_iff.mp h).1, fun h => ⟨_, foldlM_register_iff.mpr ⟨h, rfl⟩⟩⟩
  have hsplit : ∀ method, (verdicts [] routes).filter (fun verdict => verdict.1.method = method) =
      verdicts [] (routesOf method routes) := fun method => verdicts_of [] routes method
  rw [hall]
  constructor
  · intro h method verdict hverdict
    rw [← hsplit] at hverdict
    exact h verdict (List.mem_filter.mp hverdict).1
  · intro h verdict hverdict
    refine h verdict.1.method verdict ?_
    rw [← hsplit]
    exact List.mem_filter.mpr ⟨hverdict, decide_eq_true rfl⟩

/-! ## One method beside others -/

/-- **Alike for a method**: look-ups find the same, and a route of the method is refused by both
tables for the same reason, or accepted by both, after which look-ups again find the same. -/
def AlikeFor (method : Method) (table table' : RouteTable σ) : Prop :=
  (∀ path, table.lookup method path = table'.lookup method path) ∧
    ∀ route, route.method = method → table.refusal? route = table'.refusal? route ∧
      ∀ path, (table.attempt route).lookup method path = (table'.attempt route).lookup method path

theorem lookup_congr (h : table.ofMethod method = table'.ofMethod method) (path : String) :
    table.lookup method path = table'.lookup method path := by
  rw [← lookup_ofMethod, h, lookup_ofMethod]

/-- **Only the entries of the method count.** -/
theorem AlikeFor.of_entries (h : table.ofMethod method = table'.ofMethod method) :
    AlikeFor method table table' := by
  refine ⟨lookup_congr h, ?_⟩
  rintro route rfl
  refine ⟨?_, lookup_congr ?_⟩
  · rw [← refusal?_ofMethod, h, refusal?_ofMethod]
  · rw [← attempt_ofMethod, h, attempt_ofMethod]

/-- **Methods do not interfere.** In two sequences of registrations any of them may be refused; one
that is refused leaves the table as it was. If the sequences have the same routes for a method, in
the same order, then the same comes of each of these, and the tables are alike for the method. A
method without routes matches nothing. If the sequences have the same routes for every method, so
that they differ only in how the methods follow each other, then none is refused in the one if none
is in the other, and all look-ups find the same. If none is refused, the tables are those of the
sequences registered as a whole. -/
theorem methods_apart (routes routes' : List (Route σ)) :
    (∀ method, routesOf method routes = routesOf method routes' →
      (verdicts [] routes).filter (fun verdict => verdict.1.method = method) =
        (verdicts [] routes').filter (fun verdict => verdict.1.method = method) ∧
      AlikeFor method (attemptAll [] routes) (attemptAll [] routes')) ∧
    (∀ method, (∀ route ∈ routes, route.method ≠ method) →
      ∀ path, (attemptAll [] routes).lookup method path = none) ∧
    ((∀ method, routesOf method routes = routesOf method routes') →
      ((∃ last, routes.foldlM register [] = .ok last) ↔
        ∃ last, routes'.foldlM register [] = .ok last) ∧
      ∀ method path, (attemptAll [] routes).lookup method path =
        (attemptAll [] routes').lookup method path) ∧
    ∀ last, routes.foldlM register [] = .ok last → last = attemptAll [] routes := by
  have hentries : ∀ method, routesOf method routes = routesOf method routes' →
      (attemptAll [] routes).ofMethod method = (attemptAll [] routes').ofMethod method := by
    intro method hsame
    rw [ofMethod_attemptAll, ofMethod_attemptAll, hsame]
  refine ⟨fun method hsame => ⟨?_, .of_entries (hentries method hsame)⟩, ?_, fun hsame => ⟨?_, ?_⟩,
    fun last hlast => (foldlM_register_iff.mp hlast).2⟩
  · rw [verdicts_of, verdicts_of, hsame]
  · intro method hnone path
    have hroutes : routesOf method routes = [] :=
      List.filter_eq_nil_iff.mpr fun route hroute => by simpa using hnone route hroute
    refine lookup_of_no_entries ?_ path
    rw [ofMethod_attemptAll, hroutes]
    rfl
  · simp only [accepted_iff, hsame]
  · exact fun method => lookup_congr (hentries method (hsame method))

end RouteTable

/-! ## Two methods on the same paths -/

namespace Exports

def post : Method := ⟨"POST", by decide⟩

/-- A route of some method to an export. -/
def exportRoute (method : Method) (pattern : String) : Route Unit :=
  .ofHandler method pattern "exports::find" fun _ => .answer (.text "")

/-- Registrations for two methods. The third clashes with the second only, and the fifth with the
first only; the fourth is refused because it has no valid pattern. -/
def mingled : List (Route Unit) := [exportRoute .get "/exports/{id}",
  exportRoute post "/exports/{*path}", exportRoute post "/exports/{name}", exportRoute post "/\x7b",
  exportRoute .get "/exports/{name}", exportRoute .get "/exports/latest"]

/-- The same without the second method. -/
def unmingled : List (Route Unit) := [exportRoute .get "/exports/{id}",
  exportRoute .get "/exports/{name}", exportRoute .get "/exports/latest"]

/-- Of the routes for the first method, the same one is refused, and look-ups find the others,
whatever happens to the second method. -/
theorem mingled_apart :
    RouteTable.routesOf .get mingled = RouteTable.routesOf .get unmingled ∧
      (RouteTable.verdicts [] mingled).map (fun verdict => verdict.2.isSome) =
        [false, false, true, true, true, false] ∧
      RouteTable.AlikeFor .get (RouteTable.attemptAll [] mingled)
        (RouteTable.attemptAll [] unmingled) ∧
      (RouteTable.attemptAll [] mingled).lookup .get "/exports/17" =
        some (exportRoute .get "/exports/{id}", .ofList [("id", "17")]) ∧
      (RouteTable.attemptAll [] unmingled).lookup post "/exports/17" = none := by
  have hsame : RouteTable.routesOf .get mingled = RouteTable.routesOf .get unmingled := rfl
  have hnone : ∀ route ∈ unmingled, route.method ≠ post := by
    simp [unmingled, exportRoute, Route.ofHandler, Method.get, post]
  exact ⟨hsame, rfl, ((RouteTable.methods_apart mingled unmingled).1 .get hsame).2, rfl,
    (RouteTable.methods_apart unmingled mingled).2.1 post hnone "/exports/17"⟩

end Exports

end TimedHttp
