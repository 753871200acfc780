import TimedHttp.Route.Table

/-!
# What a search for a route finds

A search goes through several patterns at once and drops those that a path cannot match. What it
finds was there from the start, and the path fits it, with the values that the search gives. So a
route that is looked up in a table was registered, and its pattern was read without a fault.

## Main definitions

* `Pattern.Fits` — a path fits a pattern, with values for its placeholders
* `RouteTable.RegisteredFrom` — an entry comes from one of some routes

## Main statements

* `Pattern.search_fits` — what a search finds fits the path
* `RouteTable.registered_of_foldlM` — a table of registered routes has nothing else in it
* `RouteTable.lookup_fits` — what is looked up fits the path
-/

namespace TimedHttp

namespace Pattern

/-- **A path fits a pattern** with values for its placeholders. -/
inductive Fits : Pattern → List (List Char) → List Char → Prop
  | nil : Fits [] [] []
  | literal {c : Char} {p : Pattern} {values : List (List Char)} {path : List Char} :
      Fits p values path → Fits (.literal c :: p) values (c :: path)
  | parameter {name value : List Char} {p : Pattern} {values : List (List Char)}
      {path : List Char} : value ≠ [] → '/' ∉ value → Fits p values path →
      Fits (.parameter name :: p) (value :: values) (value ++ path)
  | remainder {name value : List Char} : value ≠ [] → Fits [.remainder name] [value] value

/-! ## What is left of a pattern -/

/-- What is left of a pattern behind some of its parts: no fault stands in it. -/
def Sound (p : Pattern) : Prop := ∃ taken, fault taken p = none

theorem Sound.tail {part : Part} {p : Pattern} (h : Sound (part :: p)) : Sound p := by
  obtain ⟨taken, h⟩ := h
  cases part with
  | literal c => exact ⟨_, h⟩
  | parameter name =>
    rw [fault] at h
    split at h
    next => cases h
    next => exact ⟨true, h⟩
  | remainder name =>
    simp only [fault] at h
    split at h
    next => cases h
    next =>
      split at h
      next hp => exact ⟨false, by rw [hp, fault]⟩
      next => cases h

theorem Sound.remainder_last {name : List Char} {p : Pattern} (h : Sound (.remainder name :: p)) :
    p = [] := by
  obtain ⟨taken, h⟩ := h
  simp only [fault] at h
  split at h
  next => cases h
  next =>
    split at h
    next hp => exact hp
    next => cases h

/-! ## Candidates -/

variable {α : Type}

theorem mem_afterLiteral {c : Char} {candidates : List (Candidate α)} {candidate : Candidate α}
    (h : candidate ∈ afterLiteral c candidates) :
    ⟨.literal c :: candidate.left, candidate.item⟩ ∈ candidates := by
  obtain ⟨⟨left, item⟩, hmem, heq⟩ := List.mem_filterMap.mp h
  match left with
  | .literal d :: rest =>
    simp only at heq
    split at heq
    next hd =>
      cases heq
      rw [hd]
      exact hmem
    next => cases heq
  | [] => cases heq
  | .parameter _ :: _ => cases heq
  | .remainder _ :: _ => cases heq

theorem mem_afterParameter {candidates : List (Candidate α)} {candidate : Candidate α}
    (h : candidate ∈ afterParameter candidates) :
    ∃ name, ⟨.parameter name :: candidate.left, candidate.item⟩ ∈ candidates := by
  obtain ⟨⟨left, item⟩, hmem, heq⟩ := List.mem_filterMap.mp h
  match left with
  | .parameter name :: rest =>
    cases heq
    exact ⟨name, hmem⟩
  | [] => cases heq
  | .literal _ :: _ => cases heq
  | .remainder _ :: _ => cases heq

theorem mem_of_atRemainder {candidates : List (Candidate α)} {item : α}
    (h : atRemainder candidates = some item) :
    ∃ name rest, ⟨.remainder name :: rest, item⟩ ∈ candidates := by
  obtain ⟨⟨left, item⟩, hmem, heq⟩ := List.exists_of_findSome?_eq_some h
  match left with
  | .remainder name :: rest =>
    cases heq
    exact ⟨name, rest, hmem⟩
  | [] => cases heq
  | .literal _ :: _ => cases heq
  | .parameter _ :: _ => cases heq

theorem mem_of_complete {candidates : List (Candidate α)} {item : α}
    (h : complete candidates = some item) : ⟨[], item⟩ ∈ candidates := by
  obtain ⟨⟨left, item⟩, hmem, heq⟩ := List.exists_of_findSome?_eq_some h
  match left with
  | [] =>
    cases heq
    exact hmem
  | _ :: _ => cases heq

/-! ## What a parameter takes -/

/-- A suffix that a parameter leaves is not empty, and neither is what it takes. -/
theorem longestSuffix_spec {text s : List Char} {suffixes : List (List Char)}
    (h : longestSuffix text suffixes = some s) : s ≠ [] ∧ s.length < text.length := by
  refine List.foldlRecOn
    (motive := fun best => ∀ s, best = some s → s ≠ [] ∧ s.length < text.length)
    _ _ ?none ?step s h
  case none => exact fun _ hnone => nomatch hnone
  intro best hbest suffix hsuffix s hs
  have hfitting := (List.mem_filter.mp hsuffix).2
  simp only [Bool.and_eq_true, decide_eq_true_eq] at hfitting
  cases best with
  | none =>
    cases hs
    exact hfitting.1
  | some b =>
    simp only at hs
    split at hs
    next =>
      cases hs
      exact hfitting.1
    next => exact hbest s hs

theorem segment_prefix (path : List Char) : ∃ rest, path = segment path ++ rest :=
  ⟨_, (List.takeWhile_append_dropWhile).symm⟩

theorem slash_notMem_segment (path : List Char) : '/' ∉ segment path := by
  intro h
  simpa using List.all_eq_true.mp List.all_takeWhile '/' h

theorem length_segmentWithSlash_le (path : List Char) :
    (segmentWithSlash path).length ≤ (segment path).length + 1 := by
  rw [segmentWithSlash, List.length_append, List.length_take]
  omega

/-- A parameter that goes on takes something of the first segment. -/
theorem takes_segment {path : List Char} {behind rest : List (Candidate α)} {count : Nat}
    (h : parameterStep path behind = .takes count rest) :
    0 < count ∧ '/' ∉ path.take count ∧ ∀ candidate ∈ rest, candidate ∈ behind := by
  simp only [parameterStep] at h
  split at h
  next s hs =>
    obtain ⟨hne, hlt⟩ := longestSuffix_spec hs
    cases h
    have hpos : 0 < s.length := List.length_pos_iff.mpr hne
    have hle := length_segmentWithSlash_le path
    refine ⟨by omega, ?_, fun candidate hc => (List.mem_filter.mp hc).1⟩
    intro hslash
    obtain ⟨tail, htail⟩ := segment_prefix path
    rw [htail, List.take_append_of_le_length] at hslash
    · rw [← htail] at hslash
      exact slash_notMem_segment path (List.mem_of_mem_take hslash)
    · rw [← htail]
      omega
  next =>
    split at h
    next => split at h <;> cases h
    next => cases h

theorem ends_segment {path : List Char} {behind : List (Candidate α)} {item : α}
    (h : parameterStep path behind = .ends item) :
    '/' ∉ path ∧ ⟨[], item⟩ ∈ behind := by
  simp only [parameterStep] at h
  split at h
  next => cases h
  next =>
    split at h
    next item' hitem =>
      split at h
      next hall =>
        cases h
        exact ⟨hall ▸ slash_notMem_segment path, mem_of_complete hitem⟩
      next => cases h
    next => cases h

/-- A parameter has taken the first characters of a path, and what follows fits. -/
theorem Fits.takes {name path : List Char} {c : Char} {count : Nat} {p : Pattern}
    {values : List (List Char)} (hslash : '/' ∉ (c :: path).take (count + 1))
    (h : Fits p values (path.drop count)) :
    Fits (.parameter name :: p) ((c :: path).take (count + 1) :: values) (c :: path) := by
  have hall : Fits (.parameter name :: p) ((c :: path).take (count + 1) :: values)
      ((c :: path).take (count + 1) ++ path.drop count) :=
    .parameter (List.cons_ne_nil _ _) hslash h
  rwa [List.take_succ_cons, List.cons_append, List.take_append_drop] at hall

/-- **How a search goes on** at a character: with it, or with a placeholder that takes it. -/
theorem search_cons {c : Char} {path : List Char} {candidates : List (Candidate α)}
    {found : α × List (List Char)} (h : search (c :: path) 0 candidates = some found) :
    search path 0 (afterLiteral c candidates) = some found ∨
      (∃ item, atRemainder candidates = some item ∧ found = (item, [c :: path])) ∨
      (∃ count behind behindFound,
        parameterStep (c :: path) (afterParameter candidates) = .takes count behind ∧
          search path (count - 1) behind = some behindFound ∧
          found = (behindFound.1, (c :: path).take count :: behindFound.2)) ∨
      ∃ item, parameterStep (c :: path) (afterParameter candidates) = .ends item ∧
        found = (item, [c :: path]) := by
  simp only [search] at h
  split at h
  next _ hfound =>
    cases h
    split at hfound
    next => cases hfound
    next => exact .inl hfound
  next =>
    split at h
    next item hitem =>
      cases h
      exact .inr (.inl ⟨item, hitem, rfl⟩)
    next =>
      split at h
      next => cases h
      next =>
        split at h
        next count behind hstep =>
          obtain ⟨behindFound, hfound, rfl⟩ := Option.map_eq_some_iff.mp h
          exact .inr (.inr (.inl ⟨count, behind, behindFound, hstep, hfound, rfl⟩))
        next item hstep =>
          cases h
          exact .inr (.inr (.inr ⟨item, hstep, rfl⟩))
        next => cases h

/-- **What a search finds fits the path**, with the values that it gives. -/
theorem search_fits {path : List Char} {skip : Nat} {candidates : List (Candidate α)}
    {found : α × List (List Char)} (hsound : ∀ candidate ∈ candidates, Sound candidate.left)
    (h : search path skip candidates = some found) :
    ∃ left, ⟨left, found.1⟩ ∈ candidates ∧ Fits left found.2 (path.drop skip) := by
  induction path generalizing skip candidates found with
  | nil =>
    rw [search] at h
    obtain ⟨item, hitem, rfl⟩ := Option.map_eq_some_iff.mp h
    exact ⟨[], mem_of_complete hitem, by rw [List.drop_nil]; exact .nil⟩
  | cons c path ih =>
    cases skip with
    | succ skip => exact ih hsound h
    | zero =>
      rcases search_cons h with hliteral | ⟨item, hitem, rfl⟩ |
        ⟨count, behind, behindFound, hstep, hfound, rfl⟩ | ⟨item, hstep, rfl⟩
      · obtain ⟨left, hmem, hfits⟩ := ih
          (fun candidate hc => (hsound _ (mem_afterLiteral hc)).tail) hliteral
        exact ⟨.literal c :: left, mem_afterLiteral hmem, hfits.literal⟩
      · obtain ⟨name, rest, hmem⟩ := mem_of_atRemainder hitem
        obtain rfl := (hsound _ hmem).remainder_last
        exact ⟨_, hmem, .remainder (List.cons_ne_nil _ _)⟩
      · obtain ⟨hpos, hslash, hsubset⟩ := takes_segment hstep
        have hbehind : ∀ candidate ∈ behind, Sound candidate.left := by
          intro candidate hc
          obtain ⟨name, hmem⟩ := mem_afterParameter (hsubset _ hc)
          exact (hsound _ hmem).tail
        obtain ⟨left, hmem, hfits⟩ := ih hbehind hfound
        obtain ⟨name, hcandidate⟩ := mem_afterParameter (hsubset _ hmem)
        obtain ⟨count, rfl⟩ := Nat.exists_eq_succ_of_ne_zero (Nat.ne_of_gt hpos)
        exact ⟨_, hcandidate, hfits.takes hslash⟩
      · obtain ⟨hslash, hmem⟩ := ends_segment hstep
        obtain ⟨name, hcandidate⟩ := mem_afterParameter hmem
        have hall : Fits [.parameter name] [c :: path] (c :: path ++ []) :=
          .parameter (List.cons_ne_nil c path) hslash .nil
        rw [List.append_nil] at hall
        exact ⟨_, hcandidate, hall⟩

end Pattern

namespace RouteTable

open Pattern

variable {σ : Type}

/-! ## Tables -/

/-- **Registered**: the route of the entry is one of these, and the entry has its pattern as read,
without a fault. -/
structure RegisteredFrom (routes : List (Route σ)) (entry : RouteEntry σ) : Prop where
  route : entry.route ∈ routes
  parsed : Pattern.parse entry.route.pattern = .ok entry.pattern
  sound : Pattern.fault false entry.pattern = none

/-- A registration adds the route, and may leave out others. -/
theorem register_registered {table table' : RouteTable σ} {route : Route σ}
    (h : table.register route = .ok table') :
    ∀ entry ∈ table', entry ∈ table ∨ (entry.route = route ∧ RegisteredFrom [route] entry) := by
  rw [register] at h
  split at h
  next => cases h
  next pattern hparse =>
    simp only at h
    split at h
    next => cases h
    next hfault =>
      cases h
      rw [fault] at hfault
      split at hfault
      next => cases hfault
      next =>
        intro entry hentry
        rcases List.mem_append.mp hentry with hentry | hentry
        · refine .inl ?_
          split at hentry
          next => exact (List.mem_filter.mp hentry).1
          next => exact hentry
        · obtain rfl := List.mem_singleton.mp hentry
          exact .inr ⟨rfl, List.mem_singleton.mpr rfl, hparse, hfault⟩

/-- **A table of registered routes** has nothing else in it. -/
theorem registered_of_foldlM {routes : List (Route σ)} {table last : RouteTable σ}
    (h : routes.foldlM register table = .ok last) :
    ∀ entry ∈ last, entry ∈ table ∨ RegisteredFrom routes entry := by
  induction routes generalizing table with
  | nil =>
    cases h
    exact fun entry hentry => .inl hentry
  | cons route routes ih =>
    rw [List.foldlM_cons] at h
    cases hregister : table.register route with
    | error e =>
      rw [hregister] at h
      cases h
    | ok table' =>
      rw [hregister] at h
      intro entry hentry
      rcases ih h entry hentry with hentry | hlater
      · rcases register_registered hregister entry hentry with hold | ⟨-, hnew⟩
        · exact .inl hold
        · exact .inr ⟨List.mem_cons.mpr (.inl (List.mem_singleton.mp hnew.route)), hnew.parsed,
            hnew.sound⟩
      · exact .inr ⟨List.mem_cons_of_mem _ hlater.route, hlater.parsed, hlater.sound⟩

/-- **What is looked up fits**: the route has the method, and the parameters are the values with
which the path fits its pattern. -/
theorem lookup_fits {table : RouteTable σ} {method : Method} {path : String} {route : Route σ}
    {found : Params} (hsound : ∀ entry ∈ table, Pattern.fault false entry.pattern = none)
    (h : table.lookup method path = some (route, found)) :
    ∃ entry ∈ table, entry.route = route ∧ route.method = method ∧
      ∃ values, entry.pattern.Fits values path.toList ∧ found = params entry.pattern values := by
  obtain ⟨⟨entry, values⟩, hsearch, heq⟩ := Option.map_eq_some_iff.mp h
  cases heq
  have hcandidate : ∀ candidate ∈ (table.ofMethod method).map fun entry =>
      (⟨entry.pattern, entry⟩ : Candidate (RouteEntry σ)),
      candidate.item ∈ table.ofMethod method ∧ candidate.left = candidate.item.pattern := by
    intro candidate hc
    obtain ⟨entry, hentry, rfl⟩ := List.mem_map.mp hc
    exact ⟨hentry, rfl⟩
  obtain ⟨left, hmem, hfits⟩ := search_fits (fun candidate hc => by
    obtain ⟨hentry, hleft⟩ := hcandidate candidate hc
    exact ⟨false, hleft ▸ hsound _ (List.mem_filter.mp hentry).1⟩) hsearch
  obtain ⟨hentry, hleft⟩ := hcandidate _ hmem
  obtain ⟨htable, hmethod⟩ := List.mem_filter.mp hentry
  have hpattern : left = entry.pattern := hleft
  rw [hpattern] at hfits
  exact ⟨entry, htable, rfl, of_decide_eq_true hmethod, values, hfits, rfl⟩

end RouteTable

end TimedHttp
