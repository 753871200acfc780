/-!
# Cutting text

Text is cut as a list of characters: at every separator (`pieces`), at the first one (`cutFirst`),
at the last pair of colons (`cutLastColons`), and at its two ends (`strip`). Each cut comes with
the place where it cuts a text that was put together.
-/

namespace TimedHttp.Text

/-- The pieces between the separators; there is one more piece than there are separators. -/
def pieces (separator : Char) : List Char → List (List Char)
  | [] => [[]]
  | c :: rest =>
    if c = separator then [] :: pieces separator rest
    else
      match pieces separator rest with
      | [] => [[c]]
      | piece :: others => (c :: piece) :: others

theorem pieces_of_not_mem {separator : Char} {text : List Char} (h : separator ∉ text) :
    pieces separator text = [text] := by
  induction text with
  | nil => rfl
  | cons c rest ih =>
    obtain ⟨hc, hrest⟩ := List.ne_and_not_mem_of_not_mem_cons h
    simp only [pieces, if_neg (Ne.symm hc), ih hrest]

theorem pieces_append {separator : Char} {piece : List Char} (h : separator ∉ piece)
    (rest : List Char) :
    pieces separator (piece ++ separator :: rest) = piece :: pieces separator rest := by
  induction piece with
  | nil => simp only [List.nil_append, pieces, if_true]
  | cons c piece ih =>
    obtain ⟨hc, hpiece⟩ := List.ne_and_not_mem_of_not_mem_cons h
    simp only [List.cons_append, pieces, if_neg (Ne.symm hc), ih hpiece]

/-- What stands before and after the first separator; nothing if there is none. -/
def cutFirst (separator : Char) : List Char → Option (List Char × List Char)
  | [] => none
  | c :: rest =>
    if c = separator then some ([], rest)
    else (cutFirst separator rest).map fun cut => (c :: cut.1, cut.2)

theorem cutFirst_of_not_mem {separator : Char} {text : List Char} (h : separator ∉ text) :
    cutFirst separator text = none := by
  induction text with
  | nil => rfl
  | cons c rest ih =>
    obtain ⟨hc, hrest⟩ := List.ne_and_not_mem_of_not_mem_cons h
    simp only [cutFirst, if_neg (Ne.symm hc), ih hrest, Option.map_none]

theorem cutFirst_append {separator : Char} {before : List Char} (h : separator ∉ before)
    (after : List Char) :
    cutFirst separator (before ++ separator :: after) = some (before, after) := by
  induction before with
  | nil => simp only [List.nil_append, cutFirst, if_true]
  | cons c before ih =>
    obtain ⟨hc, hbefore⟩ := List.ne_and_not_mem_of_not_mem_cons h
    simp only [List.cons_append, cutFirst, if_neg (Ne.symm hc), ih hbefore, Option.map_some]

/-- What stands before the first separator, or all of a text without one. -/
def upTo (separator : Char) (text : List Char) : List Char :=
  text.takeWhile (· ≠ separator)

/-- What stands before and after the last two adjacent colons; nothing if there are none. -/
def cutLastColons : List Char → Option (List Char × List Char)
  | [] => none
  | c :: rest =>
    match cutLastColons rest with
    | some (before, after) => some (c :: before, after)
    | none =>
      match c, rest with
      | ':', ':' :: after => some ([], after)
      | _, _ => none

theorem eq_of_cutLastColons {text before after : List Char}
    (h : cutLastColons text = some (before, after)) :
    text = before ++ ':' :: ':' :: after := by
  induction text generalizing before with
  | nil => cases h
  | cons c rest ih =>
    simp only [cutLastColons] at h
    split at h
    next hr => cases h; rw [ih hr]; rfl
    next => split at h <;> cases h; rfl

/-- Two adjacent colons stand in the text. -/
def HasColons (text : List Char) : Prop := [':', ':'] <:+: text

theorem not_hasColons_of_not_mem {text : List Char} (h : ':' ∉ text) : ¬HasColons text :=
  fun hcolons => h (List.IsInfix.subset hcolons List.mem_cons_self)

theorem hasColons_cons_iff {c : Char} {rest : List Char} :
    HasColons (c :: rest) ↔ (c = ':' ∧ ∃ after, rest = ':' :: after) ∨ HasColons rest := by
  rw [HasColons, List.infix_cons_iff, ← HasColons, List.cons_prefix_cons]
  refine or_congr (and_congr eq_comm ?_) Iff.rfl
  constructor
  · rintro ⟨after, rfl⟩
    exact ⟨after, rfl⟩
  · rintro ⟨after, rfl⟩
    exact ⟨after, rfl⟩

/-- **A text is cut if colons stand in it**, and only then. -/
theorem cutLastColons_eq_none_iff {text : List Char} :
    cutLastColons text = none ↔ ¬HasColons text := by
  induction text with
  | nil => simp [cutLastColons, HasColons]
  | cons c rest ih =>
    rw [hasColons_cons_iff, not_or, ← ih]
    simp only [cutLastColons]
    split
    next hrest => simp [hrest]
    next hrest =>
      split
      next => simp
      next hne =>
        simp only [hrest, and_true, true_iff]
        rintro ⟨rfl, after, rfl⟩
        exact hne _ rfl rfl

theorem hasColons_of_cut {text before after : List Char}
    (h : cutLastColons text = some (before, after)) : HasColons text :=
  ⟨before, after, by simp [eq_of_cutLastColons h]⟩

/-- Behind the last colons there are no others, not even together with the second one of them. -/
theorem not_hasColons_after {text before after : List Char}
    (h : cutLastColons text = some (before, after)) : ¬HasColons (':' :: after) := by
  rw [← cutLastColons_eq_none_iff]
  induction text generalizing before with
  | nil => cases h
  | cons c rest ih =>
    simp only [cutLastColons] at h
    split at h
    next hrest =>
      cases h
      exact ih hrest
    next hrest =>
      split at h
      next =>
        cases h
        exact hrest
      next => cases h

/-- What stands in front of a text does not move its cut. -/
theorem cutLastColons_append {text before after : List Char}
    (h : cutLastColons text = some (before, after)) (front : List Char) :
    cutLastColons (front ++ text) = some (front ++ before, after) := by
  induction front with
  | nil => exact h
  | cons c front ih => simp only [List.cons_append, cutLastColons, ih]

/-- No cut arises in front of a text by characters that are no colons. -/
theorem cutLastColons_append_of_not_mem {front : List Char} (h : ':' ∉ front) (text : List Char) :
    cutLastColons (front ++ text) =
      (cutLastColons text).map fun cut => (front ++ cut.1, cut.2) := by
  induction front with
  | nil => simp
  | cons c front ih =>
    obtain ⟨hc, hfront⟩ := List.ne_and_not_mem_of_not_mem_cons h
    simp only [List.cons_append, cutLastColons, ih hfront]
    cases cutLastColons text with
    | some cut => rfl
    | none =>
      simp only [Option.map_none]
      split
      next => exact absurd rfl hc
      next => rfl

/-- **A text is cut at its last colons**: those behind which there are none, not even together with
the second one of them. -/
theorem cutLastColons_append_colons {after : List Char} (h : cutLastColons (':' :: after) = none)
    (before : List Char) :
    cutLastColons (before ++ ':' :: ':' :: after) = some (before, after) := by
  have hcolons : cutLastColons (':' :: ':' :: after) = some ([], after) := by
    rw [cutLastColons, h]
  rw [cutLastColons_append hcolons, List.append_nil]

theorem cutLastColons_colon_cons {text : List Char} (h : ¬HasColons text)
    (hhead : text.head? ≠ some ':') : cutLastColons (':' :: text) = none := by
  rw [cutLastColons_eq_none_iff, hasColons_cons_iff]
  rintro (⟨-, after, rfl⟩ | hcolons)
  · exact hhead rfl
  · exact h hcolons

/-- A text without the characters of a class at its two ends. -/
def strip (inClass : Char → Bool) (text : List Char) : List Char :=
  ((text.dropWhile inClass).reverse.dropWhile inClass).reverse

section Strip

variable {inClass : Char → Bool}

/-- No character of the class stands at an end of the text. -/
def Trimmed (inClass : Char → Bool) (text : List Char) : Prop :=
  (∀ c, text.head? = some c → inClass c = false) ∧
    ∀ c, text.getLast? = some c → inClass c = false

theorem dropWhile_of_all {text : List Char} (h : ∀ c ∈ text, inClass c = true) :
    text.dropWhile inClass = [] := by
  have happend : (text ++ []).dropWhile inClass = [].dropWhile inClass :=
    List.dropWhile_append_of_pos h
  rwa [List.append_nil] at happend

theorem dropWhile_of_head {text : List Char} (h : ∀ c, text.head? = some c → inClass c = false) :
    text.dropWhile inClass = text := by
  cases text with
  | nil => rfl
  | cons c rest => exact List.dropWhile_cons_of_neg (by simp [h c rfl])

theorem strip_subset (text : List Char) : strip inClass text ⊆ text := by
  intro c hc
  have hdropped := (List.dropWhile_sublist _).subset (List.mem_reverse.mp hc)
  exact (List.dropWhile_sublist _).subset (List.mem_reverse.mp hdropped)

theorem strip_append_left {front : List Char} (h : ∀ c ∈ front, inClass c = true)
    (text : List Char) : strip inClass (front ++ text) = strip inClass text := by
  rw [strip, List.dropWhile_append_of_pos h, strip]

theorem strip_append_right {back : List Char} (h : ∀ c ∈ back, inClass c = true)
    (text : List Char) : strip inClass (text ++ back) = strip inClass text := by
  have hback : ∀ c ∈ back.reverse, inClass c = true := fun c hc => h c (List.mem_reverse.mp hc)
  rw [strip, strip, List.dropWhile_append]
  split
  next hempty => rw [List.isEmpty_iff.mp hempty, dropWhile_of_all h]
  next => rw [List.reverse_append, List.dropWhile_append_of_pos hback]

theorem strip_of_all {text : List Char} (h : ∀ c ∈ text, inClass c = true) :
    strip inClass text = [] := by
  rw [strip, dropWhile_of_all h]
  rfl

theorem strip_of_trimmed {text : List Char} (h : Trimmed inClass text) :
    strip inClass text = text := by
  have hlast : ∀ c, text.reverse.head? = some c → inClass c = false := fun c hc =>
    h.2 c (by rwa [List.head?_reverse] at hc)
  rw [strip, dropWhile_of_head h.1, dropWhile_of_head hlast, List.reverse_reverse]

/-- **Between characters of the class** a text is what is left, if it has none at its own ends. -/
theorem strip_padded {front text back : List Char} (hfront : ∀ c ∈ front, inClass c = true)
    (hback : ∀ c ∈ back, inClass c = true) (h : Trimmed inClass text) :
    strip inClass (front ++ text ++ back) = text := by
  rw [strip_append_right hback, strip_append_left hfront, strip_of_trimmed h]

/-- **Around a character that stays**, a text is stripped on each side alone. -/
theorem strip_append_cons {c : Char} (h : inClass c = false) (front back : List Char) :
    strip inClass (front ++ c :: back) =
      front.dropWhile inClass ++ c :: (back.reverse.dropWhile inClass).reverse := by
  have hcut : ∀ front back : List Char,
      (front ++ c :: back).dropWhile inClass = front.dropWhile inClass ++ c :: back := by
    intro front back
    rw [List.dropWhile_append]
    split
    next hempty => rw [List.isEmpty_iff.mp hempty, List.dropWhile_cons_of_neg (by simp [h])]; rfl
    next => rfl
  have hreverse : (front.dropWhile inClass ++ c :: back).reverse =
      back.reverse ++ c :: (front.dropWhile inClass).reverse := by simp
  rw [strip, hcut, hreverse, hcut]
  simp

theorem strip_dropWhile (text : List Char) :
    strip inClass (text.dropWhile inClass) = strip inClass text := by
  have hfront : ∀ c ∈ text.takeWhile inClass, inClass c = true :=
    List.all_eq_true.mp List.all_takeWhile
  calc strip inClass (text.dropWhile inClass)
      = strip inClass (text.takeWhile inClass ++ text.dropWhile inClass) :=
        (strip_append_left hfront _).symm
    _ = strip inClass text := by rw [List.takeWhile_append_dropWhile]

theorem strip_dropWhile_reverse (text : List Char) :
    strip inClass (text.reverse.dropWhile inClass).reverse = strip inClass text := by
  have hback : ∀ c ∈ (text.reverse.takeWhile inClass).reverse, inClass c = true := fun c hc =>
    List.all_eq_true.mp List.all_takeWhile c (List.mem_reverse.mp hc)
  calc strip inClass (text.reverse.dropWhile inClass).reverse
      = strip inClass ((text.reverse.dropWhile inClass).reverse ++
          (text.reverse.takeWhile inClass).reverse) := (strip_append_right hback _).symm
    _ = strip inClass text := by
        rw [← List.reverse_append, List.takeWhile_append_dropWhile, List.reverse_reverse]

end Strip

/-- Blank or tab, the only blanks that may stand in a readable field value. -/
def isBlank (c : Char) : Bool := c = ' ' || c = '\t'

/-- Upper-case ASCII letters become lower case, all other characters stay. -/
def lower (text : String) : String := text.map Char.toLower

theorem lower_eq_iff {text lowered : String} :
    lower text = lowered ↔ text.toList.map Char.toLower = lowered.toList := by
  rw [← String.toList_inj, lower, String.toList_map]

end TimedHttp.Text
