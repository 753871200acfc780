import TimedHttp.Route.Route

/-!
# Routes are named after the path of their handler

A handler type has a path, `orders::get`, and may have arguments, `orders::get<u8>`. The default
name of its route joins the last two segments of the path, `orders#get`, as long as no path with
colons stands in the arguments. If one does, the name is taken from inside the arguments.

## Main definitions

* `TypePath` — the path of a handler type, with its arguments
* `TypePath.ownName` — the name that stands for the path

## Main statements

* `TypePath.memberName_of_plain`, `TypePath.memberName_of_cut` — the name with and without colons in
  the arguments
* `Route.named_after_path_iff` — when a route is named after the path of its handler
-/

namespace TimedHttp

/-- **Path of a handler type**: in the module `owner`, which may stand in others, a function of the
given name; behind it stand arguments in brackets, or nothing. -/
structure TypePath where
  outer : List String
  owner : String
  name : String
  arguments : String
  owner_plain : ':' ∉ owner.toList ∧ '<' ∉ owner.toList
  name_plain : ':' ∉ name.toList ∧ '<' ∉ name.toList
  bracketed : arguments = "" ∨ ∃ inside, arguments = "<" ++ inside ++ ">"

namespace TypePath

variable (t : TypePath)

/-- The modules that the owner stands in, with the colons behind each. -/
def front : List Char := t.outer.flatMap fun m => m.toList ++ [':', ':']

/-- The function with its arguments. -/
def member : List Char := t.name.toList ++ t.arguments.toList

/-- The path as it is written. -/
def text : String :=
  String.ofList (t.front ++ t.owner.toList ++ ':' :: ':' :: t.member)

/-- The name that a route of this handler should begin with. -/
def ownName : List Char := t.owner.toList ++ '#' :: t.name.toList

/-! ## The last colons of a path -/

theorem arguments_head : t.arguments.toList.head? ≠ some ':' := by
  obtain h | ⟨inside, h⟩ := t.bracketed <;> simp [h]

theorem member_head : t.member.head? ≠ some ':' := by
  intro hhead
  rw [member, List.head?_append] at hhead
  cases hname : t.name.toList with
  | nil =>
    rw [hname] at hhead
    exact t.arguments_head hhead
  | cons c rest =>
    rw [hname] at hhead
    cases hhead
    exact t.name_plain.1 (hname ▸ List.mem_cons_self)

theorem owner_head : t.owner.toList.head? ≠ some ':' := fun hhead =>
  t.owner_plain.1 (List.mem_of_mem_head? hhead)

/-- Cuts of the function with its arguments are cuts of the arguments. -/
theorem cut_member :
    Text.cutLastColons t.member =
      (Text.cutLastColons t.arguments.toList).map fun cut => (t.name.toList ++ cut.1, cut.2) :=
  Text.cutLastColons_append_of_not_mem t.name_plain.1 _

theorem lastSegment_owner : Text.lastSegment (t.front ++ t.owner.toList) = t.owner.toList := by
  have hplain : ¬Text.HasColons t.owner.toList := Text.not_hasColons_of_not_mem t.owner_plain.1
  rw [← Text.lastSegment_of_not_hasColons hplain]
  rcases List.eq_nil_or_concat t.outer with houter | ⟨outer, m, houter⟩
  · simp [front, houter, Text.lastSegment_of_not_hasColons hplain]
  · have hlast := Text.lastSegment_append_colons t.owner_head
      (outer.flatMap (fun m => m.toList ++ [':', ':']) ++ m.toList)
    simpa [front, houter, Text.lastSegment_of_not_hasColons hplain] using hlast

/-! ## The names -/

/-- **Without colons in the arguments** the name is that of the path, with the arguments. -/
theorem memberName_of_plain (h : ¬Text.HasColons t.arguments.toList) :
    Text.memberName t.text = String.ofList (t.ownName ++ t.arguments.toList) := by
  have huncut : Text.cutLastColons t.member = none := by
    rw [cut_member, Text.cutLastColons_eq_none_iff.mpr h, Option.map_none]
  have hcut : Text.cutLastColons t.text.toList = some (t.front ++ t.owner.toList, t.member) := by
    rw [text, String.toList_ofList]
    exact Text.cutLastColons_append_colons (Text.cutLastColons_colon_cons
      (Text.cutLastColons_eq_none_iff.mp huncut) t.member_head) _
  rw [Text.memberName_of_cut hcut, lastSegment_owner, member, ownName, List.append_assoc,
    List.cons_append]

/-- Colons stand behind an opening bracket. -/
theorem eq_of_cut_arguments {before after : List Char}
    (h : Text.cutLastColons t.arguments.toList = some (before, after)) :
    ∃ inside, before = '<' :: inside := by
  have harguments := Text.eq_of_cutLastColons h
  obtain hempty | ⟨inside, hinside⟩ := t.bracketed
  · simp [hempty] at harguments
  · rw [hinside] at harguments
    cases before with
    | nil => simp at harguments
    | cons c before =>
      simp only [String.toList_append, String.reduceToList, List.cons_append, List.cons.injEq]
        at harguments
      exact ⟨before, by rw [← harguments.1]⟩

/-- **With colons in the arguments** the name is cut out of what stands behind the path. -/
theorem memberName_of_cut {before after : List Char}
    (h : Text.cutLastColons t.arguments.toList = some (before, after)) :
    Text.memberName t.text =
      String.ofList (Text.lastSegment (t.name.toList ++ before) ++ '#' :: after) := by
  have hmember : Text.cutLastColons t.member = some (t.name.toList ++ before, after) := by
    rw [cut_member, h, Option.map_some]
  have hcut : Text.cutLastColons t.text.toList =
      some (t.front ++ t.owner.toList ++ ':' :: ':' :: (t.name.toList ++ before), after) := by
    have hfront := Text.cutLastColons_append hmember (t.front ++ t.owner.toList ++ [':', ':'])
    rw [text, String.toList_ofList]
    simpa using hfront
  have hhead : (t.name.toList ++ before).head? ≠ some ':' := by
    intro hhead
    have happend := Text.eq_of_cutLastColons hmember
    exact t.member_head (by rw [happend, List.head?_append, hhead]; rfl)
  rw [Text.memberName_of_cut hcut, Text.lastSegment_append_colons hhead]

/-- The name of the path does not begin what is left of the function at an opening bracket. -/
theorem not_ownName_prefix (rest : List Char) : ¬t.ownName <+: t.name.toList ++ '<' :: rest := by
  intro hprefix
  have hlength : (t.name.toList ++ ['<']).length ≤ t.ownName.length := by
    simp only [ownName, List.length_append, List.length_cons, List.length_nil]
    omega
  have hbracket : t.name.toList ++ ['<'] <+: t.ownName :=
    List.prefix_of_prefix_length_le ⟨rest, by simp⟩ hprefix hlength
  have hmem : '<' ∈ t.ownName := hbracket.subset (by simp)
  simp only [ownName, List.mem_append, List.mem_cons] at hmem
  obtain hmem | hmem | hmem := hmem
  · exact t.owner_plain.2 hmem
  · exact absurd hmem (by decide)
  · exact t.name_plain.2 hmem

/-- With colons in the arguments, the name begins with that of the path only if the last two pairs
of colons happen to enclose the owner. -/
theorem ownName_prefix_iff_of_cut {before after : List Char}
    (h : Text.cutLastColons t.arguments.toList = some (before, after)) :
    t.ownName <+: (Text.memberName t.text).toList ↔
      ∃ inner segment, Text.cutLastColons before = some (inner, segment) ∧
        t.ownName <+: segment ++ '#' :: after := by
  have hmember := Text.cutLastColons_append_of_not_mem t.name_plain.1 before
  rw [t.memberName_of_cut h, String.toList_ofList]
  cases hbefore : Text.cutLastColons before with
  | none =>
    rw [hbefore, Option.map_none, Text.cutLastColons_eq_none_iff] at hmember
    obtain ⟨inside, rfl⟩ := t.eq_of_cut_arguments h
    rw [Text.lastSegment_of_not_hasColons hmember, List.append_assoc, List.cons_append]
    simp [t.not_ownName_prefix]
  | some cut =>
    rw [hbefore, Option.map_some] at hmember
    rw [Text.lastSegment_of_cut hmember]
    exact ⟨fun hprefix => ⟨_, _, rfl, hprefix⟩, fun ⟨_, _, heq, hprefix⟩ => by
      cases heq; exact hprefix⟩

end TypePath

/-- **A route is named after the path of its handler** if no colons stand in the arguments, and
otherwise only by chance: if the last path in the arguments happens to be the same. -/
theorem Route.named_after_path_iff {σ : Type} (method : Method) (pattern : String)
    (handler : Handler σ) (t : TypePath) :
    t.ownName <+: (Route.ofHandler method pattern t.text handler).name.toList ↔
      ¬Text.HasColons t.arguments.toList ∨
        ∃ before after inner segment,
          Text.cutLastColons t.arguments.toList = some (before, after) ∧
          Text.cutLastColons before = some (inner, segment) ∧
          t.ownName <+: segment ++ '#' :: after := by
  rw [Route.ofHandler]
  cases harguments : Text.cutLastColons t.arguments.toList with
  | none =>
    have hplain := Text.cutLastColons_eq_none_iff.mp harguments
    rw [t.memberName_of_plain hplain, String.toList_ofList]
    exact iff_of_true (List.prefix_append _ _) (.inl hplain)
  | some cut =>
    rw [t.ownName_prefix_iff_of_cut harguments,
      or_iff_right (not_not_intro (Text.hasColons_of_cut harguments))]
    exact ⟨fun ⟨_, _, hcut, hprefix⟩ => ⟨_, _, _, _, rfl, hcut, hprefix⟩,
      fun ⟨_, _, _, _, heq, hcut, hprefix⟩ => by cases heq; exact ⟨_, _, hcut, hprefix⟩⟩

/-! ## A generic handler -/

namespace Exports

/-- The handler that lists the items of a type. -/
def listOf (item : String) : TypePath where
  outer := ["service", "routes"]
  owner := "exports"
  name := "list"
  arguments := "<" ++ item ++ ">"
  owner_plain := by decide
  name_plain := by decide
  bracketed := .inr ⟨item, rfl⟩

/-- The name that the route of the handler gets. -/
def listName (item : String) : String :=
  (Route.ofHandler .get "/exports" (listOf item).text fun _ =>
    (.answer (.text "") : Work Unit)).name

/-- For a type without a path the route is named after the handler. -/
theorem list_named_after_path :
    (listOf "u8").text = "service::routes::exports::list<u8>" ∧
      listName "u8" = "exports#list<u8>" ∧ (listOf "u8").ownName <+: (listName "u8").toList := by
  have hplain : ¬Text.HasColons (listOf "u8").arguments.toList :=
    Text.not_hasColons_of_not_mem (by decide)
  refine ⟨by decide, by decide, ?_⟩
  exact (Route.named_after_path_iff _ _ _ (listOf "u8")).mpr (.inl hplain)

/-- For a type with a path it is not. -/
theorem list_named_after_argument :
    (listOf "alloc::string::String").text =
        "service::routes::exports::list<alloc::string::String>" ∧
      listName "alloc::string::String" = "string#String>" ∧
      ¬(listOf "alloc::string::String").ownName <+: (listName "alloc::string::String").toList := by
  decide

end Exports

end TimedHttp
