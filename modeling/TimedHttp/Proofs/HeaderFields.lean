import Mathlib
import TimedHttp.Proofs.Samples
import TimedHttp.Server.Connection

/-!
# Header fields

Pairs of texts are put into a header one by one, when a request is built and when a response goes
out. A pair that is no field is passed over, and leaves its neighbours as they are: under each name
stand the values of the fields that carry it, in the order of the pairs.

A response going out takes all of them, and logs each pair that it passes over. A look-up in a
request takes the first value of a name, and gives nothing if that one is not readable, though a
later one may be.

## Main definitions

* `isFieldPair`, `fieldValues` — which pairs are fields, and their values under a name
* `Request.Step`, `Request.built` — a request built in steps
* `Draft.Step`, `Draft.End`, `Draft.response` — a response built in steps

## Main statements

* `Header.values_named_ofPairs` — what stands under a name
* `Request.field_reads_first` — what a look-up finds
* `Response.outgoing_keeps_valid` — what goes out, and what is logged
-/

namespace TimedHttp

/-! ## Pairs that are fields -/

/-- **The pair is a header field**: its name is a token, and no control character but a tab stands
in its value. -/
def isFieldPair (pair : String × String) : Bool :=
  isToken pair.1 && pair.2.toList.all isFieldValueChar

/-- **The values under a name**: those of the fields that carry it in any letter case, in order. -/
def fieldValues (name : String) (pairs : List (String × String)) : List String :=
  (pairs.filter fun pair => isFieldPair pair && Text.lower pair.1 = Text.lower name).map Prod.snd

theorem fieldValues_append (name : String) (front rest : List (String × String)) :
    fieldValues name (front ++ rest) = fieldValues name front ++ fieldValues name rest := by
  rw [fieldValues, List.filter_append, List.map_append]
  rfl

/-- Every character of the value is readable. -/
def isReadable (value : String) : Bool := value.toList.all isReadableChar

theorem isTokenChar_toLower (c : Char) : isTokenChar c.toLower = isTokenChar c := by
  by_cases hupper : c.isUpper = true
  · have halpha : c.isAlpha = true := by simp [Char.isAlpha, hupper]
    simp [isTokenChar, Char.isAlphanum, halpha]
  · rw [Char.toLower_eq_of_not_isUpper hupper]

/-- Letter case does not matter to a token. -/
theorem isToken_lower (name : String) : isToken (Text.lower name) = isToken name := by
  have hempty : Text.lower name = "" ↔ name = "" := by
    rw [Text.lower_eq_iff, ← String.toList_eq_nil_iff]
    exact List.map_eq_nil_iff
  have hchars : (Text.lower name).toList.all isTokenChar = name.toList.all isTokenChar := by
    have hmap : isTokenChar ∘ Char.toLower = isTokenChar := by
      funext c
      exact isTokenChar_toLower c
    rw [Text.lower, String.toList_map, List.all_map, hmap]
  rw [isToken, isToken, hchars]
  simp only [ne_eq, hempty]

/-- A pair that is a field becomes one, with its name in lower case. -/
theorem ofPair?_of_isFieldPair {pair : String × String} (h : isFieldPair pair = true) :
    ∃ field, Field.ofPair? pair.1 pair.2 = some field ∧
      field.name = Text.lower pair.1 ∧ field.value = pair.2 := by
  rw [isFieldPair, Bool.and_eq_true, ← isToken_lower] at h
  exact ⟨_, dif_pos h, rfl, rfl⟩

theorem ofPair?_eq_none {pair : String × String} (h : ¬ isFieldPair pair = true) :
    Field.ofPair? pair.1 pair.2 = none := by
  rw [isFieldPair, Bool.and_eq_true, ← isToken_lower] at h
  exact dif_neg h

theorem isNone_ofPair? (pair : String × String) :
    (Field.ofPair? pair.1 pair.2).isNone = !isFieldPair pair := by
  by_cases h : isFieldPair pair = true
  · obtain ⟨field, hfield, -⟩ := ofPair?_of_isFieldPair h
    rw [hfield, h]
    rfl
  · rw [ofPair?_eq_none h, Bool.eq_false_iff.mpr h]
    rfl

/-! ## Headers -/

namespace Header

/-- The header into which pairs were put one by one. -/
def ofPairs (pairs : List (String × String)) : Header :=
  pairs.foldl (fun h pair => h.append pair.1 pair.2) []

theorem foldl_append (h : Header) (pairs : List (String × String)) :
    pairs.foldl (fun h pair => h.append pair.1 pair.2) h =
      h ++ pairs.filterMap fun pair => Field.ofPair? pair.1 pair.2 := by
  induction pairs generalizing h with
  | nil => simp
  | cons pair pairs ih =>
    rw [List.foldl_cons, ih, append]
    cases hfield : Field.ofPair? pair.1 pair.2 with
    | none => simp [hfield]
    | some field => simp [hfield]

/-- **One after the other**, the pairs that are fields are put in, and the others passed over. -/
theorem ofPairs_eq (pairs : List (String × String)) :
    ofPairs pairs = pairs.filterMap fun pair => Field.ofPair? pair.1 pair.2 := by
  rw [ofPairs, foldl_append, List.nil_append]

theorem map_ofPairs (pairs : List (String × String)) :
    (ofPairs pairs).map (fun field => (field.name, field.value)) =
      (pairs.filter isFieldPair).map fun pair => (Text.lower pair.1, pair.2) := by
  rw [ofPairs_eq]
  induction pairs with
  | nil => rfl
  | cons pair pairs ih =>
    by_cases hpair : isFieldPair pair = true
    · obtain ⟨field, hfield, hname, hvalue⟩ := ofPair?_of_isFieldPair hpair
      rw [List.filterMap_cons, hfield, List.filter_cons_of_pos hpair, List.map_cons, List.map_cons,
        ih, hname, hvalue]
    · rw [List.filterMap_cons, ofPair?_eq_none hpair, List.filter_cons_of_neg hpair]
      exact ih

/-- **What stands under a name**: the values of the pairs that are fields and carry it. -/
theorem values_named_ofPairs (pairs : List (String × String)) (name : String) :
    ((ofPairs pairs).named name).map Field.value = fieldValues name pairs := by
  let carries : String × String → Bool := fun pair => pair.1 = Text.lower name
  calc ((ofPairs pairs).named name).map Field.value
      = (((ofPairs pairs).map fun field => (field.name, field.value)).filter carries).map
          Prod.snd := by
        rw [List.filter_map, List.map_map]
        rfl
    _ = (((pairs.filter isFieldPair).map fun pair => (Text.lower pair.1, pair.2)).filter
          carries).map Prod.snd := by rw [map_ofPairs]
    _ = fieldValues name pairs := by
        rw [List.filter_map, List.map_map, List.filter_filter, fieldValues]
        simp only [Bool.and_comm (isFieldPair _)]
        rfl

theorem readable_field (field : Field) :
    field.readable = if isReadable field.value then some field.value else none := rfl

/-- A look-up sees the first value of the name alone. -/
theorem first_eq (h : Header) (name : String) :
    h.first name = ((h.named name).map Field.value).head?.filter isReadable := by
  rw [first]
  cases h.named name with
  | nil => rfl
  | cons field fields =>
    rw [List.map_cons, List.head?_cons, List.head?_cons, Option.bind_some, readable_field,
      Option.filter_some]

/-- What is read of a name as a whole passes over the values that are not readable. -/
theorem readable_eq (h : Header) (name : String) :
    h.readable name = ((h.named name).map Field.value).filter isReadable := by
  rw [readable, List.filter_map]
  induction h.named name with
  | nil => rfl
  | cons field fields ih =>
    rw [List.filterMap_cons, readable_field]
    by_cases hreadable : isReadable field.value = true
    · simp [hreadable, ih]
    · simp [hreadable, ih]

end Header

/-- The first of all is the first with a property if it has it, or if none has. -/
theorem filter_head?_eq_find?_iff {α : Type} (p : α → Bool) (l : List α) :
    l.head?.filter p = l.find? p ↔ (∀ a ∈ l.head?, p a = true) ∨ ∀ a ∈ l, p a = false := by
  cases l with
  | nil => simp
  | cons a l =>
    by_cases ha : p a = true
    · simp [ha]
    · have hrest : none = l.find? p ↔ ∀ b ∈ l, p b = false := by
        rw [eq_comm, List.find?_eq_none]
        simp
      rw [List.head?_cons, Option.filter_some, if_neg ha, List.find?_cons_of_neg ha, hrest]
      simp [ha]

/-! ## Requests -/

namespace Request

/-- **A step in building a request**. -/
inductive Step where
  | method (m : Method)
  | target (text : String)
  | field (name value : String)
  | body (bytes : List UInt8)
  | remoteAddress (address : SocketAddress)
  | localAddress (address : SocketAddress)

namespace Step

def apply (r : Request) : Step → Request
  | .method m => { r with method := m }
  | .target text => { r with uri := (Uri.parse? text).getD .root }
  | .field name value => r.withField name value
  | .body bytes => { r with body := bytes }
  | .remoteAddress address => { r with remoteAddress := some address }
  | .localAddress address => { r with localAddress := some address }

/-- The pair that the step adds to the header. -/
def pair? : Step → Option (String × String)
  | field name value => some (name, value)
  | _ => none

end Step

/-- The request that steps build. -/
def built (steps : List Step) : Request := steps.foldl Step.apply {}

/-- Between the steps that add to the header, the others leave it alone. -/
theorem header_built (steps : List Step) :
    (built steps).header = .ofPairs (steps.filterMap Step.pair?) := by
  -- from any request on: what the other steps set is no part of the header
  have hfrom : ∀ r : Request, (steps.foldl Step.apply r).header =
      (steps.filterMap Step.pair?).foldl (fun h pair => h.append pair.1 pair.2) r.header := by
    induction steps with
    | nil => exact fun _ => rfl
    | cons step steps ih =>
      intro r
      rw [List.foldl_cons, ih, List.filterMap_cons]
      cases step <;> rfl
  exact hfrom {}

/-- A look-up takes the first value under the name, if that one is readable. -/
theorem field_built (steps : List Step) (name : String) :
    (built steps).field name =
      (fieldValues name (steps.filterMap Step.pair?)).head?.filter isReadable := by
  rw [field, Header.first_eq, header_built, Header.values_named_ofPairs]

/-- **A look-up reads the first value.** However a request is built, a look-up of a name, in any
letter case, takes the first value under it, and finds nothing if that value is not readable. So it
finds the first readable value if the first of all is readable, or if none is; where an unreadable
value comes before a readable one, it misses that one. What cookies are read from passes over the
unreadable values, and begins with the first readable one. -/
theorem field_reads_first (steps : List Step) (name : String) :
    let values := fieldValues name (steps.filterMap Step.pair?)
    (built steps).field name = values.head?.filter isReadable ∧
      ((built steps).field name = values.find? isReadable ↔
        (∀ value ∈ values.head?, isReadable value = true) ∨
          ∀ value ∈ values, isReadable value = false) ∧
      ((built steps).header.readable name).head? = values.find? isReadable := by
  intro values
  refine ⟨field_built steps name, ?_, ?_⟩
  · rw [field_built]
    exact filter_head?_eq_find?_iff isReadable values
  · rw [Header.readable_eq, header_built, Header.values_named_ofPairs, List.head?_filter]

end Request

namespace Exports

/-- A tag that is not readable, and one that is. -/
def tagged : List Request.Step := [.field "X-Tag" "é", .field "x-tag" "plain"]

/-- **An unreadable value hides** the readable one behind it. -/
theorem unreadable_value_hides :
    ¬ ∀ (steps : List Request.Step) (name : String), (Request.built steps).field name =
      (fieldValues name (steps.filterMap Request.Step.pair?)).find? isReadable := by
  intro h
  have hlower : Text.lower "X-Tag" = "x-tag" ∧ Text.lower "x-tag" = "x-tag" := by
    simp only [Text.lower_eq_iff]
    decide
  have hunreadable : isFieldPair ("X-Tag", "é") = true := by decide
  have hreadable : isFieldPair ("x-tag", "plain") = true := by decide
  have hvalues : fieldValues "x-tag" (tagged.filterMap Request.Step.pair?) = ["é", "plain"] := by
    simp [fieldValues, tagged, Request.Step.pair?, hlower, hunreadable, hreadable]
  have hfound := h tagged "x-tag"
  rw [Request.field_built, hvalues] at hfound
  exact absurd hfound (by decide)

end Exports

/-! ## Responses -/

namespace Draft

/-- **A step in drafting a response**. -/
inductive Step where
  | status (code : Status)
  | field (name value : String)

namespace Step

def apply (d : Draft) : Step → Draft
  | .status code => d.withStatus code
  | .field name value => d.withField name value

/-- The pair that the step adds to the draft. -/
def pair? : Step → Option (String × String)
  | .status _ => none
  | .field name value => some (name, value)

/-- The status that the step sets. -/
def status? : Step → Option Status
  | .status code => some code
  | .field _ _ => none

end Step

/-- **The end of a draft**: a body with a type, or none. -/
inductive End where
  | typed (type : ContentType) (body : List UInt8)
  | bare

namespace End

def apply (d : Draft) : End → Response
  | typed type body => d.finish type body
  | bare => d.finishBare

/-- The pair that names the type of the body. -/
def pairs : End → List (String × String)
  | typed type _ => [("content-type", type.name)]
  | bare => []

def body : End → List UInt8
  | typed _ body => body
  | bare => []

end End

/-- The draft that steps leave. -/
def after (steps : List Step) : Draft := steps.foldl Step.apply {}

/-- The response that steps and an end build. -/
def response (steps : List Step) (last : End) : Response := last.apply (after steps)

/-- The fields stand in the order of their steps, and the last status stays. -/
theorem after_eq (steps : List Step) :
    after steps =
      ⟨(steps.filterMap Step.status?).getLast?.getD .ok, steps.filterMap Step.pair?⟩ := by
  -- from any draft on: its status stays only if no step sets one
  have hfrom : ∀ d : Draft, steps.foldl Step.apply d =
      ⟨(steps.filterMap Step.status?).getLast?.getD d.status,
        d.fields ++ steps.filterMap Step.pair?⟩ := by
    induction steps with
    | nil => simp
    | cons step steps ih =>
      intro d
      rw [List.foldl_cons, ih]
      cases step with
      | status code =>
        simp [Step.apply, Step.status?, Step.pair?, List.filterMap_cons, withStatus,
          List.getLast?_cons]
      | field name value => simp [Step.apply, Step.status?, Step.pair?, withField]
  rw [after, hfrom, List.nil_append]

/-- The type of a body stands before the fields that were added. -/
theorem response_eq (steps : List Step) (last : End) :
    response steps last =
      { status := (steps.filterMap Step.status?).getLast?.getD .ok
        header := last.pairs ++ steps.filterMap Step.pair?
        body := last.body } := by
  rw [response, after_eq]
  cases last <;> rfl

/-- The type of a body is a field. -/
theorem isFieldPair_type (type : ContentType) :
    isFieldPair ("content-type", type.name) = true := by
  cases type <;> decide

theorem End.fieldValues_pairs (last : End) :
    fieldValues "content-type" last.pairs = last.pairs.map Prod.snd := by
  cases last with
  | typed type body =>
    rw [fieldValues, pairs, List.filter_cons_of_pos (by simp [isFieldPair_type]), List.filter_nil]
  | bare => rfl

end Draft

namespace Response

theorem dropped_eq (r : Response) :
    r.dropped = (r.header.filter fun pair => !isFieldPair pair).map Prod.fst := by
  rw [dropped]
  simp only [isNone_ofPair?]

/-- **What goes out**: the header into which the pairs were put one by one. -/
theorem header_outgoing (r : Response) : r.outgoing.header = .ofPairs r.header :=
  (Header.ofPairs_eq r.header).symm

/-- Sending a response logs the pairs that are passed over, and does nothing else to the service. -/
theorem send_eq {σ : Type} (s : Service σ) (r : Response) :
    s.send r =
      ({ s with
        journal := s.journal ++ (r.header.filter fun pair => !isFieldPair pair).map
          (fun pair => .logged (.fieldDropped pair.1)) }, r.outgoing) := by
  rw [Service.send, Service.foldl_log, dropped_eq, List.map_map, List.map_map]
  rfl

/-- **A response loses its invalid pairs on the way out, and nothing else.** However it is drafted,
it has the status that was set last, and its pairs are the type of its body, if there is one, and
the pairs that were added, in their order. Status and body go out as they are. Under each name stand
the values of the pairs that are fields and carry it in any letter case, in their order, the type of
the body being the first of its name. What goes out are these fields, with their names in lower
case; for each of the other pairs, in order, a warning is logged, and nothing else happens to the
service. -/
theorem outgoing_keeps_valid {σ : Type} (steps : List Draft.Step) (last : Draft.End)
    (s : Service σ) :
    let r := Draft.response steps last
    let added := steps.filterMap Draft.Step.pair?
    let out := (s.send r).2
    r = ⟨(steps.filterMap Draft.Step.status?).getLast?.getD .ok, last.pairs ++ added, last.body⟩ ∧
      out.status = r.status ∧ out.body = r.body ∧
      (∀ name, (out.header.named name).map Field.value = fieldValues name r.header) ∧
      fieldValues "content-type" r.header =
        last.pairs.map Prod.snd ++ fieldValues "content-type" added ∧
      out.header.map (fun field => (field.name, field.value)) =
        (r.header.filter isFieldPair).map (fun pair => (Text.lower pair.1, pair.2)) ∧
      (s.send r).1 = { s with
        journal := s.journal ++ (r.header.filter fun pair => !isFieldPair pair).map
          (fun pair => .logged (.fieldDropped pair.1)) } ∧
      ∀ name, (Event.fieldDropped name).level = .warn := by
  intro r added out
  have hr := Draft.response_eq steps last
  have hout : out.header = .ofPairs r.header := header_outgoing r
  refine ⟨hr, rfl, rfl, fun name => ?_, ?_, ?_, ?_, fun _ => rfl⟩
  · rw [hout, Header.values_named_ofPairs]
  · have hheader : r.header = last.pairs ++ added := congrArg Response.header hr
    rw [hheader, fieldValues_append, Draft.End.fieldValues_pairs]
  · rw [hout, Header.map_ofPairs]
  · exact congrArg Prod.fst (send_eq s r)

end Response

end TimedHttp
