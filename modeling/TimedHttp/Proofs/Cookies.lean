import TimedHttp.Http.Request

/-!
# Cookies are read as they were written

The same cookies can be written in many ways: with a value bare or between quotes, with blanks
around names and values, over several fields, and among pieces and fields that are no cookies.
Whichever way they are written, they are read back in their order, and nothing else is.

## Main definitions

* `Cookie.Plain` — the cookies that can be written
* `Cookie.InPiece`, `Cookie.InLine` — how they are written in one piece, and in one field value
* `Cookie.Written` — how they are written in a header

## Main statements

* `Cookie.ofPiece?_append` — a piece is read at its first equals sign
* `Cookie.InLine.read` — a field value is read piece by piece
* `Request.cookies_of_written` — a header is read as it was written
-/

namespace TimedHttp

namespace Cookie

/-! ## Writing cookies -/

/-- Printable ASCII, the space included. -/
def isPrintable (c : Char) : Bool := 32 ≤ c.toNat && c.toNat < 127

/-- **Plain cookie**: printable, with a name that is not empty and has no blanks at its ends, and
with nothing that would end the name, the value or the piece too early. -/
structure Plain (c : Cookie) : Prop where
  printable : ∀ ch ∈ c.name.toList ++ c.value.toList, isPrintable ch = true
  named : c.name ≠ ""
  name_free : '=' ∉ c.name.toList ∧ ';' ∉ c.name.toList
  name_trimmed : Text.Trimmed Text.isBlank c.name.toList
  value_free : ';' ∉ c.value.toList
  value_trimmed : Text.Trimmed (· = '"') c.value.toList

/-- **How a value is written**: bare, if no blanks stand at its ends, or between quotes. -/
inductive WrittenValue (value : List Char) : List Char → Prop
  | bare : Text.Trimmed Text.isBlank value → WrittenValue value value
  | quoted : WrittenValue value ('"' :: (value ++ ['"']))

/-- Spaces and tabs only. -/
def Blank (text : List Char) : Prop := ∀ c ∈ text, Text.isBlank c = true

/-- **How cookies are written in one piece**: a plain one with blanks wherever there may be some. A
piece without an equals sign, or with nothing but blanks before the first one, has none. -/
inductive InPiece : List Char → List Cookie → Prop
  | cookie {c : Cookie} {written front beforeSign afterSign back : List Char} :
      c.Plain → WrittenValue c.value.toList written →
      Blank front → Blank beforeSign → Blank afterSign → Blank back →
      InPiece (front ++ c.name.toList ++ beforeSign ++ '=' :: (afterSign ++ written ++ back)) [c]
  | signless {text : List Char} : (∀ ch ∈ text, isReadableChar ch = true) → ';' ∉ text →
      '=' ∉ text → InPiece text []
  | nameless {front text : List Char} : (∀ ch ∈ text, isReadableChar ch = true) → ';' ∉ text →
      Blank front → InPiece (front ++ '=' :: text) []

/-- **How cookies are written in a field value**: in pieces, with semicolons between them. -/
inductive InLine : List Char → List Cookie → Prop
  | last {piece : List Char} {cookies : List Cookie} : InPiece piece cookies → InLine piece cookies
  | more {piece rest : List Char} {cookies others : List Cookie} : InPiece piece cookies →
      InLine rest others → InLine (piece ++ ';' :: rest) (cookies ++ others)

/-- **How cookies are written in a header**, field by field: in the fields named `cookie` in any
case, among such fields that are not readable and among fields of other names. -/
inductive Written : Header → List Cookie → Prop
  | nil : Written [] []
  | line {header : Header} {cookies more : List Cookie} {name value : String} :
      Written header cookies → Text.lower name = "cookie" → InLine value.toList more →
      Written (header.append name value) (cookies ++ more)
  | unreadable {header : Header} {cookies : List Cookie} {name value : String} :
      Written header cookies → Text.lower name = "cookie" →
      (∃ ch ∈ value.toList, isReadableChar ch = false) →
      Written (header.append name value) cookies
  | other {header : Header} {cookies : List Cookie} {name value : String} :
      Written header cookies → Text.lower name ≠ "cookie" →
      Written (header.append name value) cookies

/-! ## Reading a piece -/

/-- **A piece is read at its first equals sign.** That it is stripped as a whole before does not
show in its name and value, which are stripped themselves. -/
theorem ofPiece?_append {before : List Char} (h : '=' ∉ before) (after : List Char) :
    ofPiece? (before ++ '=' :: after) =
      if Text.strip Text.isBlank before = [] then none
      else some ⟨String.ofList (Text.strip Text.isBlank before),
        String.ofList (Text.strip (· = '"') (Text.strip Text.isBlank after))⟩ := by
  have hsign : '=' ∉ before.dropWhile Text.isBlank := fun hmem =>
    h ((List.dropWhile_sublist _).subset hmem)
  rw [ofPiece?, Text.strip_append_cons (show Text.isBlank '=' = false from rfl),
    Text.cutFirst_append hsign]
  simp only [Text.strip_dropWhile, Text.strip_dropWhile_reverse]

theorem ofPiece?_of_signless {text : List Char} (h : '=' ∉ text) : ofPiece? text = none := by
  have hsign : '=' ∉ Text.strip Text.isBlank text := fun hmem =>
    h (Text.strip_subset text hmem)
  rw [ofPiece?, Text.cutFirst_of_not_mem hsign]

/-- However it is written, a value is what is left of it without blanks and quotes. -/
theorem WrittenValue.read {value written : List Char} (h : WrittenValue value written)
    (htrimmed : Text.Trimmed (· = '"') value) :
    Text.Trimmed Text.isBlank written ∧ Text.strip (· = '"') written = value := by
  cases h with
  | bare hblank => exact ⟨hblank, Text.strip_of_trimmed htrimmed⟩
  | quoted =>
    have hquote : ∀ c ∈ ['"'], decide (c = '"') = true := by simp
    refine ⟨⟨fun c hc => ?_, fun c hc => ?_⟩, ?_⟩
    · cases hc
      rfl
    · rw [← List.cons_append, List.getLast?_concat] at hc
      cases hc
      rfl
    · exact Text.strip_padded hquote hquote htrimmed

theorem WrittenValue.subset {value written : List Char} (h : WrittenValue value written) :
    written ⊆ '"' :: value := by
  cases h with
  | bare => exact List.subset_cons_self _ _
  | quoted => simp

/-- The character may stand in a piece of a readable field value. -/
def FitsPiece (c : Char) : Prop := isReadableChar c = true ∧ c ≠ ';'

theorem fitsPiece_of_isPrintable {c : Char} (h : isPrintable c = true) (hsemicolon : c ≠ ';') :
    FitsPiece c := by
  refine ⟨?_, hsemicolon⟩
  rw [isReadableChar, Bool.or_eq_true]
  exact .inr h

theorem Blank.fits {text : List Char} (h : Blank text) : ∀ c ∈ text, FitsPiece c := by
  intro c hc
  have hblank := h c hc
  rw [Text.isBlank, Bool.or_eq_true, decide_eq_true_eq, decide_eq_true_eq] at hblank
  obtain rfl | rfl := hblank <;> exact ⟨rfl, by decide⟩

theorem Blank.signless {text : List Char} (h : Blank text) : '=' ∉ text := fun hmem =>
  absurd (h '=' hmem) (by decide)

theorem InPiece.fits {piece : List Char} {cookies : List Cookie} (h : InPiece piece cookies) :
    ∀ c ∈ piece, FitsPiece c := by
  cases h with
  | signless hreadable hsemicolon _ =>
    exact fun c hc => ⟨hreadable c hc, fun heq => hsemicolon (heq ▸ hc)⟩
  | @nameless front text hreadable hsemicolon hfront =>
    intro c hc
    simp only [List.mem_append, List.mem_cons] at hc
    obtain hc | rfl | hc := hc
    · exact hfront.fits c hc
    · exact ⟨rfl, by decide⟩
    · exact ⟨hreadable c hc, fun heq => hsemicolon (heq ▸ hc)⟩
  | @cookie c written front beforeSign afterSign back hplain hvalue hfront hbefore hafter hback =>
    have hname : ∀ ch ∈ c.name.toList, FitsPiece ch := fun ch hch =>
      fitsPiece_of_isPrintable (hplain.printable ch (List.mem_append_left _ hch))
        fun heq => hplain.name_free.2 (heq ▸ hch)
    have hwritten : ∀ ch ∈ written, FitsPiece ch := by
      intro ch hch
      obtain rfl | hch := List.mem_cons.mp (hvalue.subset hch)
      · exact ⟨rfl, by decide⟩
      · exact fitsPiece_of_isPrintable (hplain.printable ch (List.mem_append_right _ hch))
          fun heq => hplain.value_free (heq ▸ hch)
    intro ch hch
    simp only [List.mem_append, List.mem_cons] at hch
    obtain ((hch | hch) | hch) | rfl | (hch | hch) | hch := hch
    · exact hfront.fits ch hch
    · exact hname ch hch
    · exact hbefore.fits ch hch
    · exact ⟨rfl, by decide⟩
    · exact hafter.fits ch hch
    · exact hwritten ch hch
    · exact hback.fits ch hch

/-- **A piece has the cookies that were written in it.** -/
theorem InPiece.read {piece : List Char} {cookies : List Cookie} (h : InPiece piece cookies) :
    (ofPiece? piece).toList = cookies := by
  cases h with
  | signless _ _ hsign => rw [ofPiece?_of_signless hsign]; rfl
  | nameless _ _ hfront =>
    rw [ofPiece?_append hfront.signless, if_pos (Text.strip_of_all hfront)]
    rfl
  | @cookie c written front beforeSign afterSign back hplain hvalue hfront hbefore hafter hback =>
    have hsign : '=' ∉ front ++ c.name.toList ++ beforeSign := by
      simp only [List.mem_append, not_or]
      exact ⟨⟨hfront.signless, hplain.name_free.1⟩, hbefore.signless⟩
    have hnamed : c.name.toList ≠ [] := fun hnil =>
      hplain.named (String.toList_eq_nil_iff.mp hnil)
    obtain ⟨htrimmed, hvalue⟩ := hvalue.read hplain.value_trimmed
    rw [ofPiece?_append hsign, Text.strip_padded hfront hbefore hplain.name_trimmed,
      Text.strip_padded hafter hback htrimmed, hvalue, if_neg hnamed, String.ofList_toList,
      String.ofList_toList]
    rfl

/-! ## Reading a header -/

theorem InLine.readable {line : List Char} {cookies : List Cookie} (h : InLine line cookies) :
    ∀ c ∈ line, isReadableChar c = true := by
  induction h with
  | last hpiece => exact fun c hc => (hpiece.fits c hc).1
  | more hpiece _ ih =>
    intro c hc
    simp only [List.mem_append, List.mem_cons] at hc
    obtain hc | rfl | hc := hc
    · exact (hpiece.fits c hc).1
    · rfl
    · exact ih c hc

/-- **A field value has the cookies that were written in it**, piece by piece. -/
theorem InLine.read {line : List Char} {cookies : List Cookie} (h : InLine line cookies) :
    (Text.pieces ';' line).filterMap ofPiece? = cookies := by
  induction h with
  | last hpiece =>
    have hsemicolon : ';' ∉ _ := fun hmem => (hpiece.fits ';' hmem).2 rfl
    rw [Text.pieces_of_not_mem hsemicolon, ← hpiece.read]
    cases hp : ofPiece? _ <;> simp [hp]
  | more hpiece _ ih =>
    have hsemicolon : ';' ∉ _ := fun hmem => (hpiece.fits ';' hmem).2 rfl
    rw [Text.pieces_append hsemicolon, ← hpiece.read, ← ih]
    cases hp : ofPiece? _ <;> simp [hp]

theorem lower_cookie : Text.lower "cookie" = "cookie" := by
  rw [Text.lower_eq_iff]
  decide

/-- What one more pair adds to the cookies of a header. -/
theorem ofHeader_append (header : Header) (name value : String) :
    ofHeader (header.append name value) =
      ofHeader header ++ ((Field.ofPair? name value).toList.flatMap fun field =>
        if field.name = "cookie" then field.readable.toList.flatMap ofValue else []) := by
  rw [ofHeader, ofHeader, Header.readable, Header.readable, Header.named, Header.named,
    lower_cookie, Header.append]
  cases Field.ofPair? name value with
  | none => simp
  | some field =>
    by_cases hname : field.name = "cookie"
    · cases hread : field.readable <;> simp [hname, hread]
    · simp [hname]

theorem ofHeader_append_of_other {name : String} (h : Text.lower name ≠ "cookie") (header : Header)
    (value : String) : ofHeader (header.append name value) = ofHeader header := by
  rw [ofHeader_append]
  cases hfield : Field.ofPair? name value with
  | none => simp
  | some field => simp [(Field.name_and_value_of_ofPair? hfield).1, h]

theorem ofHeader_append_of_unreadable {value : String}
    (h : ∃ c ∈ value.toList, isReadableChar c = false) (header : Header) (name : String) :
    ofHeader (header.append name value) = ofHeader header := by
  rw [ofHeader_append]
  cases hfield : Field.ofPair? name value with
  | none => simp
  | some field =>
    have hread : field.readable = none := by
      rw [Field.readable, (Field.name_and_value_of_ofPair? hfield).2, if_neg]
      rw [List.all_eq_true]
      obtain ⟨c, hc, hunreadable⟩ := h
      exact fun hall => absurd (hall c hc) (by simp [hunreadable])
    simp [hread]

theorem ofHeader_append_of_readable {name value : String} (hname : Text.lower name = "cookie")
    (h : ∀ c ∈ value.toList, isReadableChar c = true) (header : Header) :
    ofHeader (header.append name value) = ofHeader header ++ ofValue value := by
  have htoken : isToken (Text.lower name) = true := by
    rw [hname]
    decide
  obtain ⟨field, hfield, hnamed, hread⟩ := Field.exists_readable htoken h
  rw [hname] at hnamed
  simp [ofHeader_append, hfield, hnamed, hread]

/-- **A header has the cookies that were written in it**, field by field. -/
theorem Written.read {header : Header} {cookies : List Cookie} (h : Written header cookies) :
    ofHeader header = cookies := by
  induction h with
  | nil => rfl
  | line _ hname hline ih =>
    rw [ofHeader_append_of_readable hname hline.readable, ih, ofValue, hline.read]
  | unreadable _ _ hunreadable ih => rw [ofHeader_append_of_unreadable hunreadable, ih]
  | other _ hname ih => rw [ofHeader_append_of_other hname, ih]

end Cookie

/-- **Cookies are read as they were written**: all of them, in their order, and nothing else. The
value found under a name is that of the first cookie with this name. -/
theorem Request.cookies_of_written {r : Request} {cookies : List Cookie}
    (h : Cookie.Written r.header cookies) :
    r.cookies = cookies ∧
      (∀ before c after, cookies = before ++ c :: after → (∀ d ∈ before, d.name ≠ c.name) →
        r.cookie c.name = some c.value) ∧
      ∀ name, (∀ c ∈ cookies, c.name ≠ name) → r.cookie name = none := by
  have hall : r.cookies = cookies := h.read
  refine ⟨hall, ?_, ?_⟩
  · rintro before c after rfl hfirst
    have hnone : before.find? (·.name = c.name) = none := by
      simpa [List.find?_eq_none] using hfirst
    rw [Request.cookie, hall, List.find?_append, hnone]
    simp
  · intro name hother
    have hnone : cookies.find? (·.name = name) = none := by
      simpa [List.find?_eq_none] using hother
    rw [Request.cookie, hall, hnone]
    rfl

/-! ## A guest with three cookies -/

namespace Exports

/-- A request with three cookies in two of its fields. One of them shares its name with the first;
between the fields stand one that is not readable and one of another name. -/
def guest : Request :=
  ((((Request.forTarget "/exports").withField "Cookie" "a=1 ; b = \" two \";junk; =x").withField
    "COOKIE" "a=é").withField "accept" "a=9").withField "cookie" "\ta=\"c\"d\""

/-- The cookies of the guest: the first value is bare, the others stand between quotes. -/
def guestCookies : List Cookie := [⟨"a", "1"⟩, ⟨"b", " two "⟩, ⟨"a", "c\"d"⟩]

theorem plain_guestCookies : ∀ c ∈ guestCookies, c.Plain := by
  simp only [guestCookies, List.forall_mem_cons]
  refine ⟨?_, ?_, ?_, List.forall_mem_nil _⟩
  all_goals exact ⟨List.all_eq_true.mp rfl, by decide, by decide,
    by simp [Text.Trimmed, Text.isBlank], by decide, by simp [Text.Trimmed]⟩

theorem blank_space : Cookie.Blank [' '] := by simp [Cookie.Blank, Text.isBlank]

theorem inLine_guest :
    Cookie.InLine "a=1 ; b = \" two \";junk; =x".toList [⟨"a", "1"⟩, ⟨"b", " two "⟩] := by
  have hnil : Cookie.Blank [] := List.forall_mem_nil _
  have hbare : Cookie.WrittenValue "1".toList "1".toList :=
    .bare (by simp [Text.Trimmed, Text.isBlank])
  have hfirst : Cookie.InPiece "a=1 ".toList [⟨"a", "1"⟩] :=
    .cookie (plain_guestCookies ⟨"a", "1"⟩ (by simp [guestCookies])) hbare hnil hnil hnil
      blank_space
  have hsecond : Cookie.InPiece " b = \" two \"".toList [⟨"b", " two "⟩] :=
    .cookie (plain_guestCookies ⟨"b", " two "⟩ (by simp [guestCookies])) .quoted blank_space
      blank_space blank_space hnil
  have hjunk : Cookie.InPiece "junk".toList [] :=
    .signless (List.all_eq_true.mp rfl) (by decide) (by decide)
  have hnameless : Cookie.InPiece " =x".toList [] :=
    .nameless (List.all_eq_true.mp rfl) (by decide) blank_space
  exact .more hfirst (.more hsecond (.more hjunk (.last hnameless)))

theorem cookies_of_guest :
    Cookie.Written guest.header guestCookies ∧ guest.cookies = guestCookies ∧
      guest.cookie "a" = some "1" ∧ guest.cookie "b" = some " two " ∧
      guest.cookie "c" = none := by
  have htab : Cookie.Blank ['\t'] := by simp [Cookie.Blank, Text.isBlank]
  have hnil : Cookie.Blank [] := List.forall_mem_nil _
  have hlast : Cookie.InLine "\ta=\"c\"d\"".toList [⟨"a", "c\"d"⟩] :=
    .last (.cookie (plain_guestCookies ⟨"a", "c\"d"⟩ (by simp [guestCookies])) .quoted htab hnil
      hnil hnil)
  have hnames : ∀ name ∈ ["Cookie", "COOKIE", "cookie"], Text.lower name = "cookie" := by
    simp only [Text.lower_eq_iff]
    decide
  have hother : Text.lower "accept" ≠ "cookie" := by
    rw [ne_eq, Text.lower_eq_iff]
    decide
  have hwritten : Cookie.Written guest.header guestCookies :=
    .line (.other (.unreadable (.line .nil (hnames _ (by simp)) inLine_guest) (hnames _ (by simp))
      ⟨'é', by decide, by decide⟩) hother) (hnames _ (by simp)) hlast
  obtain ⟨hall, hfound, hmissing⟩ := Request.cookies_of_written hwritten
  refine ⟨hwritten, hall, hfound [] ⟨"a", "1"⟩ _ rfl (List.forall_mem_nil _),
    hfound [⟨"a", "1"⟩] ⟨"b", " two "⟩ _ rfl (by decide), hmissing "c" (by decide)⟩

end Exports

end TimedHttp
