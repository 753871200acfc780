import TimedHttp.Failure

/-!
# Error classes keep generic arguments whole

The class of an error is the short name of the type that it was made from. A type name has a path of
segments, perhaps behind reference marks, and perhaps generic arguments in brackets, in which any
text may stand. The short name is cut in front of the last segment of the path. What stands in the
arguments, other paths and brackets included, never moves the cut and is never cut itself.

## Main definitions

* `TypeName` — a type name taken apart

## Main statements

* `TypeName.exists_text` — every text without brackets is the path of a type name
* `TypeName.shortName_of_path`, `TypeName.shortName_of_bare` — the short name of a type with a path,
  and without one
* `HandlerError.class_keeps_arguments` — the class of an error made from a type
-/

namespace TimedHttp

/-- **Reference mark** in front of a type. -/
inductive ReferenceMark where
  | shared
  | exclusive
  deriving DecidableEq

def ReferenceMark.text : ReferenceMark → List Char
  | shared => ['&']
  | exclusive => ['&', 'm', 'u', 't', ' ']

/-- **Type name**: reference marks, a path, and perhaps the text of generic arguments. The path has
a last segment, and perhaps others in front of it. Where three colons stand in a row, the path could
be cut in two ways; the first of them is then counted to the segment in front. -/
structure TypeName where
  marks : List ReferenceMark := []
  outer : List String := []
  last : String
  arguments : Option String := none
  outer_plain : ∀ s ∈ outer, '<' ∉ s.toList ∧ ¬Text.HasColons s.toList
  last_plain : '<' ∉ last.toList ∧ ¬Text.HasColons last.toList
  last_apart : outer ≠ [] → last.toList.head? ≠ some ':'

namespace TypeName

variable (t : TypeName)

/-- The reference marks, and the segments in front of the last one with the colons behind each. -/
def front : List Char :=
  t.marks.flatMap ReferenceMark.text ++ t.outer.flatMap fun s => s.toList ++ [':', ':']

/-- The generic arguments in their brackets. -/
def bracketed : List Char :=
  match t.arguments with
  | none => []
  | some inside => '<' :: (inside.toList ++ ['>'])

/-- The name as it is written. -/
def text : String := String.ofList (t.front ++ t.last.toList ++ t.bracketed)

/-- The last segment with the arguments. -/
def ownText : String := String.ofList (t.last.toList ++ t.bracketed)

/-! ## Every path has segments -/

/-- **Every text is cut into segments** in one of these ways. -/
theorem exists_segments (path : List Char) (h : '<' ∉ path) :
    ∃ (outer : List String) (last : String),
      (∀ s ∈ outer, '<' ∉ s.toList ∧ ¬Text.HasColons s.toList) ∧
      ('<' ∉ last.toList ∧ ¬Text.HasColons last.toList) ∧
      (outer ≠ [] → last.toList.head? ≠ some ':') ∧
      path = outer.flatMap (fun s => s.toList ++ [':', ':']) ++ last.toList := by
  -- what stands in front of the last colons is shorter
  induction hn : path.length using Nat.strongRecOn generalizing path with
  | _ n ih =>
    subst hn
    cases hcut : Text.cutLastColons path with
    | none =>
      refine ⟨[], .ofList path, List.forall_mem_nil _, ?_, absurd rfl, by simp⟩
      rw [String.toList_ofList]
      exact ⟨h, Text.cutLastColons_eq_none_iff.mp hcut⟩
    | some cut =>
      obtain ⟨before, after⟩ := cut
      have hpath := Text.eq_of_cutLastColons hcut
      have hbehind := Text.not_hasColons_after hcut
      rw [Text.hasColons_cons_iff, not_or] at hbehind
      rw [hpath] at h
      obtain ⟨outer, last, houter, hlast, -, hbefore⟩ := ih before.length
        (by simp [hpath]) before (fun hmem => h (List.mem_append_left _ hmem)) rfl
      refine ⟨outer ++ [last], .ofList after, ?_, ?_, fun _ hhead => ?_, ?_⟩
      · exact List.forall_mem_append.mpr ⟨houter, List.forall_mem_singleton.mpr hlast⟩
      · rw [String.toList_ofList]
        exact ⟨fun hmem => h (by simp [hmem]), hbehind.2⟩
      · rw [String.toList_ofList] at hhead
        obtain ⟨rest, hrest⟩ := List.head?_eq_some_iff.mp hhead
        exact hbehind.1 ⟨rfl, rest, hrest⟩
      · rw [hpath, hbefore]
        simp

/-- **Every text without brackets is a path**, before arguments or without. -/
theorem exists_text (path : List Char) (h : '<' ∉ path) (arguments : Option String) :
    ∃ t : TypeName, t.marks = [] ∧ t.arguments = arguments ∧
      t.text = String.ofList (path ++ t.bracketed) := by
  obtain ⟨outer, last, houter, hlast, hapart, hpath⟩ := exists_segments path h
  refine ⟨⟨[], outer, last, arguments, houter, hlast, hapart⟩, rfl, rfl, ?_⟩
  rw [hpath, text, front]
  rfl

/-! ## The head of the name -/

theorem not_mem_front : '<' ∉ t.front := by
  rw [front, List.mem_append, List.mem_flatMap, List.mem_flatMap]
  rintro (⟨mark, -, hmark⟩ | ⟨s, hs, hmem⟩)
  · cases mark <;> exact absurd hmark (by decide)
  · rw [List.mem_append] at hmem
    exact hmem.elim (t.outer_plain s hs).1 (by decide)

/-- The name is searched for colons up to its first opening bracket: that of the arguments. -/
theorem cut_at_bracket :
    t.text.toList.takeWhile (· ≠ '<') = t.front ++ t.last.toList ∧
      t.text.toList.dropWhile (· ≠ '<') = t.bracketed := by
  have hhead : ∀ c ∈ t.front ++ t.last.toList, (decide (c ≠ '<')) = true := by
    intro c hc
    refine decide_eq_true ?_
    rintro rfl
    exact (List.mem_append.mp hc).elim t.not_mem_front t.last_plain.1
  rw [text, String.toList_ofList, List.takeWhile_append_of_pos hhead,
    List.dropWhile_append_of_pos hhead, bracketed]
  cases t.arguments with
  | none => exact ⟨List.append_nil _, rfl⟩
  | some inside => exact ⟨List.append_nil _, rfl⟩

/-- **With a path**, the head of the name is cut in front of its last segment. -/
theorem cut_of_path (h : t.outer ≠ []) :
    ∃ before, Text.cutLastColons (t.front ++ t.last.toList) = some (before, t.last.toList) := by
  obtain ⟨outer, s, houter⟩ := List.eq_nil_or_concat t.outer |>.resolve_left h
  refine ⟨t.marks.flatMap ReferenceMark.text ++
    (outer.flatMap (fun s => s.toList ++ [':', ':']) ++ s.toList), ?_⟩
  have hcut := Text.cutLastColons_append_colons
    (Text.cutLastColons_colon_cons t.last_plain.2 (t.last_apart h))
  rw [← hcut]
  simp [front, houter]

/-- **Without a path**, no colons stand in the head of the name. -/
theorem cut_of_bare (h : t.outer = []) :
    Text.cutLastColons (t.front ++ t.last.toList) = none := by
  have hmarks : ':' ∉ t.marks.flatMap ReferenceMark.text := by
    rw [List.mem_flatMap]
    rintro ⟨mark, -, hmark⟩
    cases mark <;> exact absurd hmark (by decide)
  rw [front, h, List.flatMap_nil, List.append_nil, Text.cutLastColons_append_of_not_mem hmarks,
    Text.cutLastColons_eq_none_iff.mpr t.last_plain.2, Option.map_none]

/-! ## The short name -/

/-- **A type with a path** is called by its last segment, with the arguments as they are. -/
theorem shortName_of_path (h : t.outer ≠ []) : Text.shortName t.text = t.ownText := by
  obtain ⟨before, hcut⟩ := t.cut_of_path h
  obtain ⟨hhead, hrest⟩ := t.cut_at_bracket
  simp only [Text.shortName, hhead, hcut, hrest, ownText]

/-- **A type without a path** is called by its whole name. -/
theorem shortName_of_bare (h : t.outer = []) : Text.shortName t.text = t.text := by
  simp only [Text.shortName, t.cut_at_bracket.1, t.cut_of_bare h]

/-- The arguments in their brackets do not stand inside of the arguments. -/
theorem not_infix_arguments {shown inside : String} (harguments : t.arguments = some inside)
    (h : t.bracketed <:+: shown.toList) : ¬ shown.toList <:+: inside.toList := by
  intro hinside
  have hlength := (h.trans hinside).length_le
  rw [bracketed, harguments, List.length_cons, List.length_append, List.length_singleton] at hlength
  omega

end TypeName

/-- **Error classes keep generic arguments whole.** An error made from a type with a path has as its
class the last segment of the path with the arguments, unchanged, if there are any. For a type
without a path it is the whole name. In neither case is the class a piece of what stands in the
arguments. Every text without brackets is a path of such a type, alone or in front of arguments. -/
theorem HandlerError.class_keeps_arguments :
    (∀ (t : TypeName) (message : String),
      (HandlerError.ofType t.text message).className = Text.shortName t.text ∧
      Text.shortName t.text = (if t.outer = [] then t.text else t.ownText) ∧
      ∀ inside, t.arguments = some inside →
        ¬ (Text.shortName t.text).toList <:+: inside.toList) ∧
    ∀ (path : List Char) (arguments : Option String), '<' ∉ path →
      ∃ t : TypeName, t.marks = [] ∧ t.arguments = arguments ∧
        t.text = String.ofList (path ++ t.bracketed) := by
  refine ⟨fun t message => ?_, fun path arguments h => TypeName.exists_text path h arguments⟩
  have hshown : Text.shortName t.text = if t.outer = [] then t.text else t.ownText := by
    split
    next h => exact t.shortName_of_bare h
    next h => exact t.shortName_of_path h
  refine ⟨rfl, hshown, fun inside harguments => t.not_infix_arguments harguments ?_⟩
  rw [hshown]
  split
  · exact ⟨t.front ++ t.last.toList, [], by simp [TypeName.text]⟩
  · exact ⟨t.last.toList, [], by simp [TypeName.ownText]⟩

namespace TypeName

/-- A type with a path, and another one in its arguments. -/
def boxed : TypeName where
  marks := [.shared]
  outer := ["alloc", "boxed"]
  last := "Box"
  arguments := some "core::fmt::Error"
  outer_plain := List.forall_mem_cons.mpr
    ⟨⟨by decide, Text.not_hasColons_of_not_mem (by decide)⟩, List.forall_mem_singleton.mpr
      ⟨by decide, Text.not_hasColons_of_not_mem (by decide)⟩⟩
  last_plain := ⟨by decide, Text.not_hasColons_of_not_mem (by decide)⟩
  last_apart _ := by decide

/-- The path of the type is cut, that of the argument is not. -/
theorem class_of_boxed :
    boxed.text = "&alloc::boxed::Box<core::fmt::Error>" ∧
      (HandlerError.ofType boxed.text "").className = "Box<core::fmt::Error>" ∧
      ¬ "Box<core::fmt::Error>".toList <:+: "core::fmt::Error".toList := by
  obtain ⟨hclass, hshort, hpiece⟩ := HandlerError.class_keeps_arguments.1 boxed ""
  have hown : Text.shortName boxed.text = "Box<core::fmt::Error>" := hshort.trans (by decide)
  refine ⟨by decide, hclass.trans hown, ?_⟩
  rw [← hown]
  exact hpiece "core::fmt::Error" rfl

end TypeName

end TimedHttp
