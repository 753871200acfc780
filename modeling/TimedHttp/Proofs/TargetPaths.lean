import Mathlib
import TimedHttp.Dispatch.App
import TimedHttp.Proofs.HostNames

/-!
# The path of a target

A target may name a path: by beginning with it, by being the asterisk, or behind a scheme and an
authority. The path and the query are parts of the URI that was read, while the target is cut out of
that URI as it is written again. The two agree: the target is the path with the query behind it. So
the target of a measurement and the path by which routes are looked up tell of the same resource.
Only an authority that stands alone names no path, and there the target is that authority.

## Main definitions

* `NamesPath` — the forms of a target that name a path
* `Uri.Placed` — what is read from them

## Main statements

* `Uri.placed_or_alone` — every target that is read is in one of these forms, or an authority
* `Uri.Placed.originForm_text` — the origin form of a URI as it is written
* `Request.target_names_path` — the target of a request against its path and query
-/

namespace TimedHttp

/-- **A target that names a path**: in origin form, as the asterisk, or in absolute form. -/
inductive NamesPath (target : String) : Prop
  | origin (rest : String) (text : target = "/" ++ rest)
  | asterisk (text : target = "*")
  | absolute (scheme authority rest : String) (form : AbsoluteForm target scheme authority rest)

namespace Uri

/-- A query as it is written behind a path. -/
def queryText : Option String → String
  | some query => "?" ++ query
  | none => ""

/-- A path begins with a slash, and a query or a fragment ends it. -/
structure IsPath (path : String) : Prop where
  slash : path.toList.head? = some '/'
  endless : ∀ c ∈ path.toList, endsPath c = false

/-- **A URI that has a place**: a path, in front of which there may be a scheme and an authority, or
the asterisk. -/
inductive Placed : Uri → Prop
  | asterisk : Placed ⟨none, none, "*", none⟩
  | relative {path : String} (query : Option String) (hpath : IsPath path) :
    Placed ⟨none, none, path, query⟩
  | absolute {scheme authority path : String} (query : Option String)
    (hscheme : Undelimited scheme.toList) (hauthority : Undelimited authority.toList)
    (hpath : IsPath path) : Placed ⟨some scheme, some authority, path, query⟩

/-! ## Reading a path -/

theorem delimiter_cases {c : Char} (h : isDelimiter c = true) : c = '/' ∨ c = '?' ∨ c = '#' := by
  simpa using isDelimiter_eq_true_iff.mp h

/-- What is read as a path stands before the first character that ends one. -/
theorem eq_of_parsePathQuery? {text path : List Char} {query : Option (List Char)}
    (h : parsePathQuery? text = some (path, query)) :
    path = text.takeWhile fun c => !endsPath c := by
  simp only [parsePathQuery?] at h
  split at h
  · split at h
    · split at h
      · cases h
        rfl
      · cases h
    · cases h
      rfl
  · cases h

/-- Where a slash, a query, a fragment or nothing follows, a path is read. One that was left out is
the root. -/
theorem isPath_of_delimited {text path : List Char} {query : Option (List Char)}
    (h : parsePathQuery? text = some (path, query)) (hdelimited : Delimited text) :
    IsPath (orRoot path) := by
  have hpath := eq_of_parsePathQuery? h
  by_cases hnil : path = []
  · rw [orRoot, if_pos hnil]
    exact ⟨rfl, by simp [endsPath]⟩
  · rw [orRoot, if_neg hnil]
    constructor
    · rw [String.toList_ofList]
      cases text with
      | nil => exact absurd hpath hnil
      | cons c rest =>
        have hstart : c = '/' ∨ endsPath c = true := by
          rcases delimiter_cases (hdelimited c rfl) with rfl | rfl | rfl <;> decide
        rcases hstart with rfl | hends
        · rw [hpath]
          rfl
        · -- a query or a fragment leaves no path in front of it
          rw [List.takeWhile_cons_of_neg (by simp [hends])] at hpath
          exact absurd hpath hnil
    · intro c hc
      rw [String.toList_ofList, hpath] at hc
      simpa using List.mem_takeWhile_imp hc

/-! ## Reading a scheme -/

/-- A character that is no letter is the lower case of itself alone. -/
theorem eq_of_toLower {c d : Char} (h : c.toLower = d) (hd : d.isLower = false) : c = d := by
  have halpha : c.isAlpha = false := by
    rw [← Char.isLower_toLower_eq_isAlpha, h, hd]
  have hupper : ¬ c.isUpper = true := by
    simp only [Char.isAlpha, Bool.or_eq_false_iff] at halpha
    simp [halpha.1]
  rw [← h, Char.toLower_eq_of_not_isUpper hupper]

theorem eq_of_afterIgnoringCase {lowered text rest : List Char}
    (h : afterIgnoringCase lowered text = some rest) :
    ∃ front, text = front ++ rest ∧ front.map Char.toLower = lowered := by
  induction lowered generalizing text with
  | nil =>
    cases h
    exact ⟨[], rfl, rfl⟩
  | cons p lowered ih =>
    cases text with
    | nil => cases h
    | cons c text =>
      simp only [afterIgnoringCase] at h
      split at h
      next hc =>
        obtain ⟨front, rfl, hfront⟩ := ih h
        exact ⟨c :: front, rfl, by rw [List.map_cons, hc, hfront]⟩
      next => cases h

/-- No letter case hides a delimiter. -/
theorem undelimited_of_toLower {text lowered : List Char} (h : text.map Char.toLower = lowered)
    (hlowered : Undelimited lowered) : Undelimited text := by
  intro c hc
  rw [Bool.eq_false_iff]
  intro hdelimiter
  have hself : c.toLower = c := by
    rcases delimiter_cases hdelimiter with rfl | rfl | rfl <;> rfl
  have hmem : c ∈ lowered := by
    rw [← h, ← hself]
    exact List.mem_map_of_mem hc
  rw [hlowered c hmem] at hdelimiter
  cases hdelimiter

/-- A scheme in any letter case, with the marker behind it. -/
theorem front_of_afterIgnoringCase {lowered text rest : List Char}
    (h : afterIgnoringCase (lowered ++ [':', '/', '/']) text = some rest)
    (hlowered : Undelimited lowered) :
    ∃ front, Undelimited front ∧ text = front ++ ':' :: '/' :: '/' :: rest := by
  obtain ⟨front, rfl, hfront⟩ := eq_of_afterIgnoringCase h
  obtain ⟨scheme, marker, rfl, hscheme, hmarker⟩ := List.map_eq_append_iff.mp hfront
  have hmarker' : marker = [':', '/', '/'] := by
    have hself : ∀ c ∈ marker, c.toLower = c := by
      intro c hc
      have hmem : c.toLower ∈ [':', '/', '/'] := hmarker ▸ List.mem_map_of_mem hc
      have hlower : c.toLower.isLower = false := by
        simp only [List.mem_cons, List.not_mem_nil, or_false] at hmem
        rcases hmem with hc | hc | hc <;> rw [hc] <;> rfl
      exact (eq_of_toLower rfl hlower).symm
    rw [← hmarker, List.map_congr_left hself, List.map_id']
  refine ⟨scheme, undelimited_of_toLower hscheme hlowered, ?_⟩
  rw [hmarker']
  simp

theorem schemeChar_undelimited {c : Char} (h : isSchemeChar c = true) : isDelimiter c = false := by
  rw [Bool.eq_false_iff]
  intro hdelimiter
  rcases delimiter_cases hdelimiter with rfl | rfl | rfl <;> exact absurd h (by decide)

theorem eq_of_scanScheme {text scheme rest : List Char}
    (h : scanScheme text = some (scheme, rest)) :
    Undelimited scheme ∧ text = scheme ++ ':' :: '/' :: '/' :: rest := by
  induction text using scanScheme.induct generalizing scheme with
  | case1 => cases h
  | case2 rest =>
    cases h
    exact ⟨List.forall_mem_nil _, rfl⟩
  | case3 c text hmarker hc ih =>
    rw [scanScheme, if_pos hc] at h
    · obtain ⟨⟨front, back⟩, hfound, heq⟩ := Option.map_eq_some_iff.mp h
      cases heq
      obtain ⟨hfront, rfl⟩ := ih hfound
      exact ⟨List.forall_mem_cons.mpr ⟨schemeChar_undelimited hc, hfront⟩, rfl⟩
    · exact hmarker
  | case4 c text hmarker hc =>
    rw [scanScheme, if_neg hc] at h
    · cases h
    · exact hmarker

/-- **A scheme that is found** has no delimiter, neither as it is written nor as it is kept. -/
theorem eq_of_schemeStart {text scheme rest : List Char}
    (h : schemeStart text = .present scheme rest) :
    Undelimited scheme ∧
      ∃ front, Undelimited front ∧ text = front ++ ':' :: '/' :: '/' :: rest := by
  have hhttp : Undelimited "http".toList := by simp [Undelimited, isDelimiter]
  have hhttps : Undelimited "https".toList := by simp [Undelimited, isDelimiter]
  rw [schemeStart] at h
  -- the two common schemes in any letter case, and only then the scan for another one
  split at h
  next hrest =>
    cases h
    exact ⟨hhttp, front_of_afterIgnoringCase hrest hhttp⟩
  next =>
    split at h
    next hrest =>
      cases h
      exact ⟨hhttps, front_of_afterIgnoringCase hrest hhttps⟩
    next =>
      split at h
      next => cases h
      next hscan =>
        split at h
        · cases h
          obtain ⟨hscheme, htext⟩ := eq_of_scanScheme hscan
          exact ⟨hscheme, _, hscheme, htext⟩
        · cases h

/-! ## Reading a target -/

/-- A text without delimiters names no path, unless it is the asterisk. -/
theorem not_namesPath {target : String} (h : Undelimited target.toList) (hne : target ≠ "*") :
    ¬ NamesPath target := by
  have hslash : '/' ∉ target.toList := by
    intro hmem
    exact absurd (h '/' hmem) (by decide)
  rintro (⟨rest, rfl⟩ | hasterisk | ⟨scheme, authority, rest, form⟩)
  · exact hslash (by simp)
  · exact hne hasterisk
  · apply hslash
    rw [(absoluteForm_iff.mp form).2.2.2]
    simp

/-- **What is read behind a scheme** has a place, and the target was in absolute form. -/
theorem placed_of_scheme {target : String} {uri : Uri} {scheme rest : List Char}
    (hscheme : schemeStart target.toList = .present scheme rest)
    (h : parseFull? target.toList = some uri) : NamesPath target ∧ uri.Placed := by
  obtain ⟨hkept, front, hfront, htext⟩ := eq_of_schemeStart hscheme
  simp only [parseFull?, hscheme] at h
  split at h
  next hauthority =>
    have hundelimited := undelimited_of_isAuthority hauthority
    obtain ⟨⟨path, query⟩, hfound, rfl⟩ := Option.map_eq_some_iff.mp h
    have hdelimited := delimited_dropWhile rest
    constructor
    · have hform : AbsoluteForm target (String.ofList front)
          (String.ofList (rest.takeWhile fun c => !isDelimiter c))
          (String.ofList (rest.dropWhile fun c => !isDelimiter c)) := by
        apply absoluteForm_iff.mpr
        simp only [String.toList_ofList, List.takeWhile_append_dropWhile]
        exact ⟨hfront, hundelimited, hdelimited, htext⟩
      exact .absolute _ _ _ hform
    · refine .absolute _ ?_ ?_ (isPath_of_delimited hfound hdelimited)
      · rwa [String.toList_ofList]
      · rwa [String.toList_ofList]
  next => cases h

/-- **Every target that is read** names a path, and its URI has a place; or it is an authority and
nothing else. -/
theorem placed_or_alone {target : String} {uri : Uri} (h : parse? target = some uri) :
    NamesPath target ∧ uri.Placed ∨
      ¬ NamesPath target ∧ uri = ⟨none, some target, "", none⟩ := by
  rw [parse?] at h
  split at h
  · cases h
  · split at h
    next => cases h
    next htext =>
      cases h
      have hasterisk : target = "*" := by
        rw [← String.toList_inj, htext]
        rfl
      exact .inl ⟨.asterisk hasterisk, .asterisk⟩
    next rest htext =>
      obtain ⟨⟨path, query⟩, hfound, rfl⟩ := Option.map_eq_some_iff.mp h
      have hslash : Delimited ('/' :: rest) := by
        intro c hc
        cases hc
        rfl
      have horigin : target = "/" ++ String.ofList rest := by
        rw [← String.toList_inj, htext]
        simp
      exact .inl ⟨.origin _ horigin, .relative _ (isPath_of_delimited hfound hslash)⟩
    next hasterisk _ =>
      cases hscheme : schemeStart target.toList with
      | present scheme rest => exact .inl (placed_of_scheme hscheme h)
      | tooLong =>
        simp only [parseFull?, hscheme] at h
        cases h
      | absent =>
        simp only [parseFull?, hscheme] at h
        split at h
        next hauthority =>
          cases h
          have hne : target ≠ "*" := fun heq => hasterisk (by rw [heq]; rfl)
          refine .inr ⟨not_namesPath (undelimited_of_isAuthority hauthority) hne, ?_⟩
          rw [String.ofList_toList]
        next => cases h

/-! ## Writing a URI -/

theorem toList_queryText (query : Option String) :
    (queryText query).toList = (query.map fun q => '?' :: q.toList).getD [] := by
  cases query <;> simp [queryText]

theorem text_eq (uri : Uri) :
    uri.text = (match uri.scheme with | some s => s ++ "://" | none => "")
      ++ uri.authority.getD "" ++ (uri.path ++ queryText uri.query) := by
  rw [text, ← String.append_assoc]
  rfl

theorem IsPath.delimited {path : String} (h : IsPath path) (query : Option String) :
    Delimited (path ++ queryText query).toList := by
  intro c hc
  have hslash := h.slash
  cases hpath : path.toList with
  | nil => simp [hpath] at hslash
  | cons d rest =>
    rw [hpath] at hslash
    cases hslash
    rw [String.toList_append, hpath] at hc
    cases hc
    rfl

namespace Placed

variable {uri : Uri}

/-- A path with its query is in origin form. -/
theorem originForm_place (h : uri.Placed) :
    originForm (uri.path ++ queryText uri.query) = uri.path ++ queryText uri.query := by
  cases h with
  | asterisk => rfl
  | relative query hpath =>
    rw [originForm, afterAuthority_of_delimited (hpath.delimited query)]
  | absolute query _ _ hpath =>
    rw [originForm, afterAuthority_of_delimited (hpath.delimited query)]

/-- **The origin form of a URI as it is written** is its path, with its query behind it. -/
theorem originForm_text (h : uri.Placed) :
    originForm uri.text = uri.path ++ queryText uri.query := by
  rw [text_eq]
  cases h with
  | asterisk => rfl
  | relative query hpath =>
    show originForm ("" ++ "" ++ _) = _
    rw [String.empty_append, String.empty_append]
    exact originForm_place (.relative query hpath)
  | @absolute scheme authority path query hscheme hauthority hpath =>
    have hform : AbsoluteForm (scheme ++ "://" ++ authority ++ (path ++ queryText query)) scheme
        authority (path ++ queryText query) := by
      apply absoluteForm_iff.mpr
      exact ⟨hscheme, hauthority, hpath.delimited query, by simp⟩
    exact hform.originForm_eq

/-- No question mark stands in the path, so the first one begins the query. -/
theorem upTo_place (h : uri.Placed) :
    String.ofList (Text.upTo '?' (uri.path ++ queryText uri.query).toList) = uri.path := by
  have hfree : '?' ∉ uri.path.toList := by
    cases h with
    | asterisk => simp
    | relative query hpath | absolute query _ _ hpath =>
      intro hmem
      exact absurd (hpath.endless '?' hmem) (by decide)
  rw [String.toList_append, toList_queryText]
  cases uri.query with
  | none =>
    rw [Option.map_none, Option.getD_none, List.append_nil, Text.upTo_eq_self_iff.mpr hfree,
      String.ofList_toList]
  | some query =>
    rw [Option.map_some, Option.getD_some, Text.upTo_append_cons,
      Text.upTo_eq_self_iff.mpr hfree, String.ofList_toList]

end Placed

theorem text_alone (authority : String) :
    (⟨none, some authority, "", none⟩ : Uri).text = authority := by
  rw [text_eq]
  show "" ++ authority ++ ("" ++ "") = authority
  rw [String.empty_append, String.append_empty, String.append_empty]

end Uri

/-! ## The target of a request -/

/-- What stands in a target in front of its query. -/
def pathPart (target : String) : String := String.ofList (Text.upTo '?' target.toList)

/-- The exchange of a request keeps its target. -/
theorem App.target_begin {σ : Type} (app : App σ) (r : Request) :
    (app.begin r).request.target = r.target := by
  rw [begin]
  split <;> rfl

theorem App.route_begin {σ : Type} (app : App σ) (r : Request) :
    (app.begin r).route = (app.routes.lookup r.method r.path).map Prod.fst := by
  rw [begin]
  cases app.routes.lookup r.method r.path <;> rfl

/-- **The target, the path and the query agree.** Let the URI of a request be read from a target
that names a path, in origin form, as the asterisk or in absolute form. Then the target of the
request is the path, with the query behind it if there is one, and it is its own origin form. It is
what a measurement of the exchange is attributed to; and what stands in it in front of the query is
the path by which the route of the exchange is looked up. A target that is read without naming a
path is an authority alone: there is no path or query then, and the target stays as it is. -/
theorem Request.target_names_path {σ : Type} {text : String} {r : Request}
    (h : Uri.parse? text = some r.uri) (app : App σ) :
    (NamesPath text →
      r.target = r.path ++ Uri.queryText r.query ∧
      originForm r.target = r.target ∧
      (Attribution.ofRequest (app.begin r).request).target = r.target ∧
      pathPart r.target = r.path ∧
      (app.begin r).route = (app.routes.lookup r.method (pathPart r.target)).map Prod.fst) ∧
    (¬ NamesPath text → r.target = text ∧ r.path = "" ∧ r.query = none) := by
  rcases Uri.placed_or_alone h with ⟨hnames, hplaced⟩ | ⟨halone, huri⟩
  · have htarget : r.target = r.path ++ Uri.queryText r.query := hplaced.originForm_text
    have hpath : pathPart r.target = r.path := by
      rw [htarget]
      exact hplaced.upTo_place
    refine ⟨fun _ => ⟨htarget, ?_, app.target_begin r, hpath, ?_⟩, fun hnot => absurd hnames hnot⟩
    · rw [htarget]
      exact hplaced.originForm_place
    · rw [hpath, app.route_begin]
  · refine ⟨fun hnames => absurd hnames halone, fun _ => ?_⟩
    have hform : ¬ ∃ scheme authority rest, AbsoluteForm text scheme authority rest :=
      fun ⟨scheme, authority, rest, form⟩ => halone (.absolute scheme authority rest form)
    refine ⟨?_, ?_, ?_⟩
    · rw [target, huri, Uri.text_alone, originForm_of_no_absoluteForm hform]
    · rw [path, huri]
    · rw [query, huri]

namespace Exports

/-- A target with everything in front of its query but a path, and a marker inside the query. -/
def searchTarget : String := "HTTP://clerk:pw@[::1]:8080?next=http://x/?y#top"

/-- The path that was left out is the root, by which the route is looked up. -/
theorem search_names_root :
    Uri.parse? searchTarget = some (Request.forTarget searchTarget).uri ∧
      NamesPath searchTarget ∧
      (Request.forTarget searchTarget).target = "/" ++ "?next=http://x/?y" ∧
      pathPart (Request.forTarget searchTarget).target = "/" ∧
      ∀ app : App Unit, (app.begin (Request.forTarget searchTarget)).route =
        (app.routes.lookup .get "/").map Prod.fst := by
  have hread : Uri.parse? searchTarget = some (Request.forTarget searchTarget).uri := by decide
  have hform : AbsoluteForm searchTarget "HTTP" "clerk:pw@[::1]:8080" "?next=http://x/?y#top" :=
    ⟨by decide, by simp, by simp, .inr (by simp)⟩
  have hnames : NamesPath searchTarget := .absolute _ _ _ hform
  have hpath : (Request.forTarget searchTarget).path = "/" := by decide
  have hquery : (Request.forTarget searchTarget).query = some "next=http://x/?y" := by decide
  have hall : ∀ app : App Unit, _ := fun app => (Request.target_names_path hread app).1 hnames
  obtain ⟨htarget, -, -, hpart, -⟩ := hall {}
  rw [hpath, hquery] at htarget
  refine ⟨hread, hnames, htarget, hpart.trans hpath, fun app => ?_⟩
  obtain ⟨-, -, -, -, hroute⟩ := hall app
  rw [hroute, hpart, hpath]
  rfl

end Exports

end TimedHttp
