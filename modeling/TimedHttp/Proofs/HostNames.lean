import TimedHttp.Metric.Attribution
import TimedHttp.Proofs.AbsoluteForm

/-!
# The host of a request

The host is read in two places: from the authority of a target in absolute form, and, for a target
in origin form, from the `Host` field. The first reading keeps a bracketed literal together; the
second one cuts the value at its first colon. They agree on a host without colons, and on no other.

## Main definitions

* `HostPort` — a host with or without a port

## Main statements

* `HostPort.hostOf_eq`, `HostPort.upTo_eq` — the two readings
* `Request.host_of_absolute`, `Request.host_of_field` — the host of the two requests
* `Request.hosts_agree_iff` — when it is the same
-/

namespace TimedHttp

/-! ## Authorities -/

namespace Uri

theorem range_of_isAlphanum {c : Char} (h : c.isAlphanum = true) :
    48 ≤ c.toNat ∧ c.toNat ≤ 122 := by
  have hranges : (decide (65 ≤ c.val ∧ c.val ≤ 90) ||
      (decide (97 ≤ c.val) && decide (c.val ≤ 122)) ||
      (decide (48 ≤ c.val) && decide (c.val ≤ 57))) = true := h
  simp only [Bool.or_eq_true, Bool.and_eq_true, decide_eq_true_eq, UInt32.le_iff_toNat_le,
    UInt32.reduceToNat] at hranges
  show 48 ≤ c.val.toNat ∧ c.val.toNat ≤ 122
  omega

/-- The characters of an authority, with the percent sign, are printable ASCII characters, and none
is a delimiter. -/
theorem authorityChar_printable {c : Char} (h : isAuthorityChar c = true ∨ c = '%') :
    32 ≤ c.toNat ∧ c.toNat < 127 ∧ isDelimiter c = false := by
  have hlisted : ∀ d ∈ '%' :: "!$&'()*+,-.:;=@[]_~".toList,
      32 ≤ d.toNat ∧ d.toNat < 127 ∧ isDelimiter d = false := by simp [isDelimiter]
  have hdelimiters : ∀ d ∈ ['/', '?', '#'], d.isAlphanum = false := by simp
  obtain h | h := h
  · rw [isAuthorityChar, Bool.or_eq_true, decide_eq_true_eq] at h
    obtain h | h := h
    · obtain ⟨hlow, hhigh⟩ := range_of_isAlphanum h
      refine ⟨by omega, by omega, Bool.eq_false_iff.mpr fun hc => ?_⟩
      rw [hdelimiters c (isDelimiter_eq_true_iff.mp hc)] at h
      cases h
    · exact hlisted c (List.mem_cons_of_mem _ h)
  · exact hlisted c (h ▸ List.mem_cons_self)

/-- The scan of an authority takes no other character in. -/
theorem AuthorityScan.step_takes {s t : AuthorityScan} {c : Char} (h : s.step c = some t) :
    isAuthorityChar c = true ∨ c = '%' := by
  simp only [step] at h
  split at h
  next hc => exact .inl (hc ▸ rfl)
  split at h
  next hc => exact .inl (hc ▸ rfl)
  split at h
  next hc => exact .inl (hc ▸ rfl)
  split at h
  next hc => exact .inl (hc ▸ rfl)
  split at h
  next hc => exact .inr hc
  split at h
  next hc => exact .inl hc
  cases h

theorem AuthorityScan.foldlM_takes {text : List Char} {s t : AuthorityScan}
    (h : text.foldlM step s = some t) : ∀ c ∈ text, isAuthorityChar c = true ∨ c = '%' := by
  induction text generalizing s with
  | nil => exact List.forall_mem_nil _
  | cons c text ih =>
    obtain ⟨u, hstep, hrest⟩ := Option.bind_eq_some_iff.mp h
    exact List.forall_mem_cons.mpr ⟨step_takes hstep, ih hrest⟩

theorem authorityChar_of_isAuthority {text : List Char} (h : isAuthority text = true) :
    ∀ c ∈ text, isAuthorityChar c = true ∨ c = '%' := by
  rw [isAuthority, Bool.and_eq_true] at h
  cases hscan : text.foldlM AuthorityScan.step {} with
  | none => simp [hscan] at h
  | some s => exact AuthorityScan.foldlM_takes hscan

theorem undelimited_of_isAuthority {text : List Char} (h : isAuthority text = true) :
    Undelimited text := fun c hc =>
  (authorityChar_printable (authorityChar_of_isAuthority h c hc)).2.2

/-! ## The authority of a target -/

/-- In a target in absolute form, the authority ends at the first delimiter. -/
theorem authority_of_absolute {authority rest : String} {uri : Uri}
    (haccepted : isAuthority authority.toList = true)
    (h : parse? ("http://" ++ authority ++ "/" ++ rest) = some uri) :
    uri.authority = some authority := by
  have htext : ("http://" ++ authority ++ "/" ++ rest).toList =
      'h' :: 't' :: 't' :: 'p' :: ':' :: '/' :: '/' ::
        (authority.toList ++ '/' :: rest.toList) := by
    simp
  have hslash : Delimited ('/' :: rest.toList) := by
    intro c hc
    cases hc
    rfl
  have hfront := (cut_at_delimiter (undelimited_of_isAuthority haccepted) hslash).1
  rw [parse?, htext] at h
  split at h
  · cases h
  · change parseFull? _ = some uri at h
    have hscheme : ∀ text : List Char, schemeStart
        ('h' :: 't' :: 't' :: 'p' :: ':' :: '/' :: '/' :: text) = .present "http".toList text :=
      fun text => rfl
    simp only [parseFull?, hscheme, hfront, haccepted, if_true] at h
    obtain ⟨found, -, rfl⟩ := Option.map_eq_some_iff.mp h
    exact congrArg some String.ofList_toList

/-- A target that begins with a slash has no authority. -/
theorem authority_of_origin {rest : String} {uri : Uri} (h : parse? ("/" ++ rest) = some uri) :
    uri.authority = none := by
  have htext : ("/" ++ rest).toList = '/' :: rest.toList := by simp
  rw [parse?, htext] at h
  split at h
  · cases h
  · obtain ⟨found, -, rfl⟩ := Option.map_eq_some_iff.mp h
    rfl

end Uri

/-! ## Hosts and ports -/

/-- **A host with or without a port**: a name or a bracketed literal, and perhaps a colon with a
port behind it. There is no user information. -/
structure HostPort (authority host : String) : Prop where
  text : authority = host ∨ ∃ port, authority = host ++ ":" ++ port
  userless : '@' ∉ authority.toList
  host : (∀ c ∈ [':', '[', ']'], c ∉ host.toList) ∨
    ∃ literal, host = "[" ++ literal ++ "]" ∧ ']' ∉ literal.toList

namespace Text

theorem upTo_eq_self_iff {separator : Char} {text : List Char} :
    upTo separator text = text ↔ separator ∉ text := by
  rw [upTo, List.takeWhile_eq_self_iff]
  constructor
  · intro h hmem
    exact absurd rfl (of_decide_eq_true (h separator hmem))
  · rintro h c hc
    exact decide_eq_true fun heq => h (heq ▸ hc)

/-- What comes after a separator does not matter. -/
theorem upTo_append_cons (separator : Char) (front rest : List Char) :
    upTo separator (front ++ separator :: rest) = upTo separator front := by
  induction front with
  | nil => simp [upTo]
  | cons c front ih =>
    simp only [upTo, List.cons_append, List.takeWhile_cons] at ih ⊢
    rw [ih]

end Text

namespace HostPort

variable {authority host : String}

theorem text_eq (h : HostPort authority host) :
    authority.toList = host.toList ∨ ∃ port, authority.toList = host.toList ++ ':' :: port := by
  obtain rfl | ⟨port, rfl⟩ := h.text
  · exact .inl rfl
  · exact .inr ⟨port.toList, by simp⟩

/-- Up to the first colon, there is no more of an authority than of its host. -/
theorem upTo_eq (h : HostPort authority host) :
    Text.upTo ':' authority.toList = Text.upTo ':' host.toList := by
  obtain htext | ⟨port, htext⟩ := h.text_eq
  · rw [htext]
  · rw [htext, Text.upTo_append_cons]

/-- **The host in an authority**, with its brackets if it has some. -/
theorem hostOf_eq (h : HostPort authority host) : Uri.hostOf authority.toList = host.toList := by
  have huserless : authority.toList.reverse.takeWhile (· ≠ '@') = authority.toList.reverse :=
    Text.upTo_eq_self_iff.mpr fun hmem => h.userless (List.mem_reverse.mp hmem)
  rw [Uri.hostOf, huserless, List.reverse_reverse]
  obtain hname | ⟨literal, rfl, hliteral⟩ := h.host
  · have hcolon : ':' ∉ host.toList := hname ':' (by decide)
    have hopen : ∀ rest, authority.toList ≠ '[' :: rest := by
      intro rest hrest
      have hbracket : '[' ∉ host.toList := hname '[' (by decide)
      obtain htext | ⟨port, htext⟩ := h.text_eq <;> rw [hrest] at htext
      · exact hbracket (htext ▸ List.mem_cons_self)
      · cases hhost : host.toList with
        | nil =>
          rw [hhost] at htext
          exact absurd (List.cons.inj htext).1 (by decide)
        | cons c name =>
          rw [hhost] at htext hbracket
          exact hbracket ((List.cons.inj htext).1 ▸ List.mem_cons_self)
    split
    next rest hrest => exact absurd hrest (hopen rest)
    next => rw [h.upTo_eq, Text.upTo_eq_self_iff.mpr hcolon]
  · have htext : ∃ tail, authority.toList = '[' :: (literal.toList ++ ']' :: tail) := by
      obtain htext | ⟨port, htext⟩ := h.text_eq
      · exact ⟨[], by simp [htext]⟩
      · exact ⟨':' :: port, by simp [htext]⟩
    obtain ⟨tail, htext⟩ := htext
    have hcut : authority.toList.takeWhile (· ≠ ']') = '[' :: literal.toList := by
      have hfront : ']' ∉ '[' :: literal.toList := by simp [hliteral]
      show Text.upTo ']' _ = _
      rw [htext, ← List.cons_append, Text.upTo_append_cons, Text.upTo_eq_self_iff.mpr hfront]
    split
    next =>
      rw [hcut]
      simp
    next hne => exact absurd htext (hne _)

end HostPort

/-! ## The two requests -/

namespace Request

theorem host_of_absolute {r : Request} {authority host rest : String}
    (h : HostPort authority host) (haccepted : Uri.isAuthority authority.toList = true)
    (hr : Uri.parse? ("http://" ++ authority ++ "/" ++ rest) = some r.uri) :
    r.host = some host := by
  have huri : r.uri.host = some host := by
    rw [Uri.host, Uri.authority_of_absolute haccepted hr, Option.map_some, h.hostOf_eq,
      String.ofList_toList]
  rw [Request.host, huri]

theorem lower_host : Text.lower "Host" = "host" ∧ Text.lower "host" = "host" := by
  constructor <;>
  · rw [Text.lower_eq_iff]
    decide

/-- An authority is a readable value of the `Host` field. -/
theorem field_of_authority {r : Request} {authority : String} {before after : Header}
    (haccepted : Uri.isAuthority authority.toList = true)
    (hheader : r.header = before.append "Host" authority ++ after)
    (hbefore : before.named "host" = []) : r.field "host" = some authority := by
  have hreadable : ∀ c ∈ authority.toList, isReadableChar c = true := by
    intro c hc
    obtain ⟨hlow, hhigh, -⟩ :=
      Uri.authorityChar_printable (Uri.authorityChar_of_isAuthority haccepted c hc)
    simp [isReadableChar, hlow, hhigh]
  have hname : isToken (Text.lower "Host") = true := by
    rw [lower_host.1]
    decide
  obtain ⟨field, hfield, hfirst, hread⟩ := Field.exists_readable hname hreadable
  rw [lower_host.1] at hfirst
  have hnamed : (before.append "Host" authority ++ after).named "host" =
      field :: after.named "host" := by
    rw [Header.append, hfield, List.append_assoc, List.singleton_append]
    show List.filter _ _ = _
    rw [List.filter_append, List.filter_cons_of_pos (by simp [hfirst, lower_host.2])]
    rw [Header.named] at hbefore
    rw [hbefore]
    rfl
  rw [Request.field, Header.first, hheader, hnamed]
  exact hread

theorem host_of_field {r : Request} {authority target : String} {before after : Header}
    (haccepted : Uri.isAuthority authority.toList = true)
    (hr : Uri.parse? ("/" ++ target) = some r.uri)
    (hheader : r.header = before.append "Host" authority ++ after)
    (hbefore : before.named "host" = []) :
    r.host = some (String.ofList (Text.upTo ':' authority.toList)) := by
  have huri : r.uri.host = none := by
    rw [Uri.host, Uri.authority_of_origin hr, Option.map_none]
  rw [Request.host, huri, field_of_authority haccepted hheader hbefore]
  rfl

/-- **The same host, twice**: in the authority of a target in absolute form, and in the first `Host`
field with a target in origin form. Both requests have a host, and so do measurements of them. The
first one has the host as it stands in the authority, the second one has it up to its first colon.
So they agree on the host if it has no colon, as names and addresses with dots have none; on a
bracketed literal with a colon they do not. -/
theorem hosts_agree_iff {authority host rest target : String} {r r' : Request}
    {before after : Header} (h : HostPort authority host)
    (haccepted : Uri.isAuthority authority.toList = true)
    (habsolute : Uri.parse? ("http://" ++ authority ++ "/" ++ rest) = some r.uri)
    (horigin : Uri.parse? ("/" ++ target) = some r'.uri)
    (hheader : r'.header = before.append "Host" authority ++ after)
    (hbefore : before.named "host" = []) :
    r.host = some host ∧ r'.host = some (String.ofList (Text.upTo ':' host.toList)) ∧
      (r.host = r'.host ↔ ':' ∉ host.toList) ∧
      ((Attribution.ofRequest r).host = (Attribution.ofRequest r').host ↔ ':' ∉ host.toList) := by
  have hfirst := host_of_absolute h haccepted habsolute
  have hsecond := host_of_field haccepted horigin hheader hbefore
  rw [h.upTo_eq] at hsecond
  have hagree : r.host = r'.host ↔ ':' ∉ host.toList := by
    rw [hfirst, hsecond, ← Text.upTo_eq_self_iff, Option.some.injEq]
    constructor
    · intro heq
      exact (String.toList_ofList.symm.trans (congrArg String.toList heq).symm)
    · intro heq
      rw [heq, String.ofList_toList]
  exact ⟨hfirst, hsecond, hagree, hagree⟩

end Request

/-! ## A name and a literal -/

namespace Exports

/-- The request for a target with the authority, and the one with the authority in a field. -/
def orders (authority : String) : Request × Request :=
  (.forTarget ("http://" ++ authority ++ "/" ++ "orders"),
    (Request.forTarget ("/" ++ "orders")).withField "Host" authority)

theorem header_orders (authority : String) :
    (orders authority).2.header = Header.append [] "Host" authority ++ [] :=
  (List.append_nil _).symm

/-- A name with a port is the same host in both. -/
theorem named_hosts_agree :
    HostPort "api.local:8080" "api.local" ∧
      (orders "api.local:8080").1.host = some "api.local" ∧
      (orders "api.local:8080").1.host = (orders "api.local:8080").2.host := by
  have h : HostPort "api.local:8080" "api.local" :=
    ⟨.inr ⟨"8080", by decide⟩, by decide, .inl (by simp)⟩
  have haccepted : Uri.isAuthority "api.local:8080".toList = true := by decide
  have habsolute : Uri.parse? ("http://" ++ "api.local:8080" ++ "/" ++ "orders") =
      some (orders "api.local:8080").1.uri := by decide
  have horigin : Uri.parse? ("/" ++ "orders") = some (orders "api.local:8080").2.uri := by decide
  obtain ⟨hfirst, -, hagree, -⟩ :=
    Request.hosts_agree_iff h haccepted habsolute horigin (header_orders _) rfl
  exact ⟨h, hfirst, hagree.mpr (by decide)⟩

/-- **A bracketed literal is cut** at its first colon if it stands in a field. -/
theorem bracketed_hosts_differ :
    ¬ ∀ authority host : String, HostPort authority host →
      Uri.isAuthority authority.toList = true →
      (orders authority).1.host = (orders authority).2.host := by
  intro hagree
  have h : HostPort "[::1]:8080" "[::1]" :=
    ⟨.inr ⟨"8080", by decide⟩, by decide, .inr ⟨"::1", by decide⟩⟩
  have haccepted : Uri.isAuthority "[::1]:8080".toList = true := by decide
  have habsolute : Uri.parse? ("http://" ++ "[::1]:8080" ++ "/" ++ "orders") =
      some (orders "[::1]:8080").1.uri := by decide
  have horigin : Uri.parse? ("/" ++ "orders") = some (orders "[::1]:8080").2.uri := by decide
  have hfirst := Request.host_of_absolute h haccepted habsolute
  have hsecond := Request.host_of_field haccepted horigin (header_orders _) rfl
  have hsame := hfirst.symm.trans ((hagree _ _ h haccepted).trans hsecond)
  exact absurd hsame (by decide)

end Exports

end TimedHttp
